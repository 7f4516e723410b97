import TypeSketch.Text.CaseTable

/-! The case of characters and texts. A character alone has one upper and one lower case; in a text the lower case
of a capital sigma depends on whether a word ends there. -/
namespace TypeSketch

namespace CaseTable

def Shift.covers (shift : Shift) (code : Nat) : Bool :=
  shift.first ≤ code && code ≤ shift.last && (code - shift.first) % shift.stride = 0

/-- The code points that a table gives for one, which is itself if the table does not have it. -/
def convert (expansions : List (Nat × List Nat)) (shifts : List Shift) (code : Nat) : List Nat :=
  match expansions.lookup code with
  | some codes => codes
  | none =>
    match shifts.find? (·.covers code) with
    | some shift => [(code + shift.offset).toNat]
    | none => [code]

def contains (ranges : List (Nat × Nat)) (code : Nat) : Bool :=
  ranges.any fun range => range.1 ≤ code && code ≤ range.2

end CaseTable

open CaseTable

def upper (c : Char) : List Char :=
  (convert upperExpansions upperShifts c.toNat).map Char.ofNat

def lower (c : Char) : List Char :=
  (convert lowerExpansions lowerShifts c.toNat).map Char.ofNat

def isCased (c : Char) : Bool := contains cased c.toNat

def isCaseIgnorable (c : Char) : Bool := contains caseIgnorable c.toNat

/-- Whether a cased character comes first, behind any that are ignored. -/
def seesCased (text : List Char) : Bool :=
  match text.dropWhile isCaseIgnorable with
  | [] => false
  | c :: _ => isCased c

/-- Lower case behind a text that is given with its last character first. A capital sigma is the final one
if a cased character is before it and none behind it. -/
def lowercaseBehind (before : List Char) : List Char → List Char
  | [] => []
  | c :: rest =>
    (if c = 'Σ' then [if seesCased before && !seesCased rest then 'ς' else 'σ'] else lower c) ++
      lowercaseBehind (c :: before) rest

def lowercase (text : List Char) : List Char := lowercaseBehind [] text

/-- The first character in upper case and the rest in lower case, each character alone. -/
def capitalize : List Char → List Char
  | [] => []
  | c :: rest => upper c ++ rest.flatMap lower

end TypeSketch
