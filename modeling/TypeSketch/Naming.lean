import TypeSketch.Text.Segments
import TypeSketch.Text.Casing

/-! Field names in the two usual forms, `camelCase` and `snake_case`. -/
namespace TypeSketch.Naming

/-- The words of a name in `snake_case`, joined in `camelCase`. The first word is kept as it is,
and an empty one further on, between two underscores or at the end, is left as an underscore. -/
def camelChars (name : List Char) : List Char :=
  match segments (· = '_') name with
  | [] => []
  | first :: rest => first ++ rest.flatMap fun word => if word = [] then ['_'] else capitalize word

def toCamelCase (name : String) : String := String.ofList (camelChars name.toList)

/-- Puts an underscore before each capitalized word: a capital that has a character other than a line feed before
it and a small letter behind it. Words are found from the left and do not overlap. -/
def markWords : List Char → List Char
  | before :: capital :: small :: rest =>
    if before ≠ '\n' ∧ capital.isUpper ∧ small.isLower then
      before :: '_' :: capital :: small :: rest.takeWhile Char.isLower ++
        markWords (rest.dropWhile Char.isLower)
    else before :: markWords (capital :: small :: rest)
  | text => text
termination_by text => text.length
decreasing_by
  · have := (List.dropWhile_sublist Char.isLower (l := rest)).length_le
    simp only [List.length_cons]
    omega
  · simp

/-- Puts an underscore between a small letter or a digit and a capital. -/
def markCapitals : List Char → List Char
  | before :: capital :: rest =>
    if (before.isLower ∨ before.isDigit) ∧ capital.isUpper then
      before :: '_' :: capital :: markCapitals rest
    else before :: markCapitals (capital :: rest)
  | text => text

def snakeChars (name : List Char) : List Char := lowercase (markCapitals (markWords name))

def toSnakeCase (name : String) : String := String.ofList (snakeChars name.toList)

end TypeSketch.Naming
