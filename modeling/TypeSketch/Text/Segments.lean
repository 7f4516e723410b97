/-! Cutting a text at separating characters. -/
namespace TypeSketch

/-- The parts of a text between the characters that separate; there is always one part, and parts may be empty. -/
def segments (separates : Char → Bool) : List Char → List (List Char)
  | [] => [[]]
  | c :: rest =>
    if separates c then [] :: segments separates rest
    else
      match segments separates rest with
      | [] => [[c]]
      | part :: parts => (c :: part) :: parts

/-- There is always one part. -/
theorem segments_ne_nil (separates : Char → Bool) (text : List Char) : segments separates text ≠ [] := by
  cases text with
  | nil => simp [segments]
  | cons c rest =>
    simp only [segments]
    split
    · simp
    · split <;> simp

/-- The property White_Space. -/
def isBlank (c : Char) : Bool :=
  let code := c.toNat
  (0x09 ≤ code && code ≤ 0x0D) || code = 0x20 || code = 0x85 || code = 0xA0 || code = 0x1680 ||
    (0x2000 ≤ code && code ≤ 0x200A) || code = 0x2028 || code = 0x2029 || code = 0x202F ||
    code = 0x205F || code = 0x3000

/-- The words of a text: its parts between blanks that are not empty. -/
def words (text : List Char) : List (List Char) := (segments isBlank text).filter (· ≠ [])

def joinWords (words : List (List Char)) : List Char := [' '].intercalate words

end TypeSketch
