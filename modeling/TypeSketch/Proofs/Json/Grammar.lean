import TypeSketch.Json.Reader

/-! The grammar of JSON on characters: which texts are JSON, and the value that each of them denotes.
Nothing here says how a text is read. -/
namespace TypeSketch

/-- Spaces, tabs and line ends, which may stand around every token. -/
def IsGap (text : List Char) : Prop := ∀ c ∈ text, c = ' ' ∨ c = '\t' ∨ c = '\n' ∨ c = '\r'

theorem isGap_nil : IsGap [] := by simp [IsGap]

/-- Two gaps are one. -/
theorem IsGap.append {front back : List Char} (hf : IsGap front) (hb : IsGap back) : IsGap (front ++ back) :=
  List.forall_mem_append.2 ⟨hf, hb⟩

namespace Numeral

def Digits (text : List Char) : Prop := text ≠ [] ∧ ∀ c ∈ text, c.isDigit

/-- A whole part: a zero alone, or digits of which the first is no zero. -/
inductive Whole : List Char → Prop
  | zero : Whole ['0']
  | digits {text : List Char} (digits : Digits text) (lead : text.head? ≠ some '0') : Whole text

/-- A fraction, if there is one. -/
inductive Fraction : List Char → Prop
  | absent : Fraction []
  | present {text : List Char} (digits : Digits text) : Fraction ('.' :: text)

/-- An exponent, if there is one, as it is written and as it is kept: with the mark `e` and a sign. -/
inductive Exponent : List Char → List Char → Prop
  | absent : Exponent [] []
  | unsigned {mark : Char} {text : List Char} (marks : mark = 'e' ∨ mark = 'E') (digits : Digits text) :
      Exponent (mark :: text) ('e' :: '+' :: text)
  | signed {mark sign : Char} {text : List Char} (marks : mark = 'e' ∨ mark = 'E')
      (signs : sign = '+' ∨ sign = '-') (digits : Digits text) :
      Exponent (mark :: sign :: text) ('e' :: sign :: text)

/-- A numeral as it is written and as it is kept: only the exponent differs. -/
inductive Written : List Char → List Char → Prop
  | mk {minus whole fraction exponent kept : List Char} (signs : minus = [] ∨ minus = ['-'])
      (wholes : Whole whole) (fractions : Fraction fraction) (exponents : Exponent exponent kept) :
      Written (minus ++ whole ++ fraction ++ exponent) (minus ++ whole ++ fraction ++ kept)

end Numeral

namespace Quoted

/-- A hexadecimal digit, in either case, and what it counts. -/
inductive HexDigit : Char → Nat → Prop
  | decimal {n : Nat} (h : n < 10) : HexDigit (Char.ofNat ('0'.toNat + n)) n
  | lower {n : Nat} (h : n < 6) : HexDigit (Char.ofNat ('a'.toNat + n)) (10 + n)
  | upper {n : Nat} (h : n < 6) : HexDigit (Char.ofNat ('A'.toNat + n)) (10 + n)

/-- The escape of one UTF-16 unit. -/
inductive UnitEscape : List Char → Nat → Prop
  | mk {a b c d : Char} {w x y z : Nat} (ha : HexDigit a w) (hb : HexDigit b x) (hc : HexDigit c y)
      (hd : HexDigit d z) : UnitEscape ['\\', 'u', a, b, c, d] (((w * 16 + x) * 16 + y) * 16 + z)

/-- The letter of a short escape, and the character that it stands for. -/
inductive Short : Char → Char → Prop
  | quote : Short '"' '"'
  | backslash : Short '\\' '\\'
  | slash : Short '/' '/'
  | backspace : Short 'b' '\x08'
  | formFeed : Short 'f' '\x0c'
  | lineFeed : Short 'n' '\n'
  | carriageReturn : Short 'r' '\r'
  | tab : Short 't' '\t'

/-- The escapes of a character: a short one, the one UTF-16 unit of a character of the basic plane,
or the surrogate pair of another. -/
inductive Escape : List Char → Char → Prop
  | short {letter c : Char} (h : Short letter c) : Escape ['\\', letter] c
  | unit {spelling : List Char} {c : Char} (h : UnitEscape spelling c.toNat) : Escape spelling c
  | pair {high low : List Char} {c : Char} (astral : 0x10000 ≤ c.toNat)
      (hh : UnitEscape high (0xD800 + (c.toNat - 0x10000) / 0x400))
      (hl : UnitEscape low (0xDC00 + (c.toNat - 0x10000) % 0x400)) : Escape (high ++ low) c

/-- The ways to write a character between quotes. -/
inductive Spelling : List Char → Char → Prop
  | raw {c : Char} (control : 0x20 ≤ c.toNat) (quote : c ≠ '"') (backslash : c ≠ '\\') : Spelling [c] c
  | escape {spelling : List Char} {c : Char} (h : Escape spelling c) : Spelling spelling c

/-- What stands between the quotes of a text, and the text. -/
inductive Inside : List Char → List Char → Prop
  | nil : Inside [] []
  | cons {spelling text content : List Char} {c : Char} (h : Spelling spelling c) (rest : Inside text content) :
      Inside (spelling ++ text) (c :: content)

/-- A quoted text, and the text. -/
inductive Written : List Char → List Char → Prop
  | mk {text content : List Char} (h : Inside text content) : Written ('"' :: text ++ ['"']) content

end Quoted

/-- The members of an object that was written with these keys and values: each key at its first place,
with its last value. -/
def Members.merged (written : Members) : Members :=
  written.keys.eraseDups.filterMap fun key => (written.reverse.lookup key).map (key, ·)

namespace Json

/-- A value in an array or an object, as it is written there. -/
structure Element where
  before : List Char
  text : List Char
  after : List Char
  value : Json

/-- A key and its value, as they are written in an object. -/
structure Member where
  before : List Char
  text : List Char
  after : List Char
  key : String
  element : Element

def Element.written (element : Element) : List Char := element.before ++ element.text ++ element.after

def Member.written (member : Member) : List Char :=
  member.before ++ member.text ++ member.after ++ ':' :: member.element.written

def Member.entry (member : Member) : String × Json := (member.key, member.element.value)

def Element.Gaps (element : Element) : Prop := IsGap element.before ∧ IsGap element.after

/-- Around the key there are only gaps, and the key is written in its text. -/
def Member.Keyed (member : Member) : Prop :=
  IsGap member.before ∧ Quoted.Written member.text member.key.toList ∧ IsGap member.after

def commaSeparated (parts : List (List Char)) : List Char := [','].intercalate parts

/-- There is a comma behind each part but the last. -/
theorem commaSeparated_cons (part : List Char) {parts : List (List Char)} (h : parts ≠ []) :
    commaSeparated (part :: parts) = part ++ ',' :: commaSeparated parts := by
  cases parts with
  | nil => cases h rfl
  | cons second parts => simp [commaSeparated, List.intercalate]

theorem commaSeparated_singleton (part : List Char) : commaSeparated [part] = part := by simp [commaSeparated]

/-- Parts with commas between them begin with the first part. -/
theorem commaSeparated_front (part : List Char) (parts : List (List Char)) :
    ∃ more, commaSeparated (part :: parts) = part ++ more := by
  cases parts with
  | nil => exact ⟨[], by rw [commaSeparated_singleton, List.append_nil]⟩
  | cons second parts => exact ⟨_, commaSeparated_cons part (List.cons_ne_nil second parts)⟩

/-- The text, without space around it, is JSON for the value. An object whose first key is `Reader.tag`
has no other member, its value is a quoted numeral, and it denotes that number. -/
inductive Written : List Char → Json → Prop
  | null : Written ['n', 'u', 'l', 'l'] .null
  | true : Written ['t', 'r', 'u', 'e'] (.bool .true)
  | false : Written ['f', 'a', 'l', 's', 'e'] (.bool .false)
  | number {text kept : List Char} (h : Numeral.Written text kept) : Written text (.number (String.ofList kept))
  | string {text content : List Char} (h : Quoted.Written text content) :
      Written text (.string (String.ofList content))
  | emptyArray {gap : List Char} (h : IsGap gap) : Written ('[' :: gap ++ [']']) (.array [])
  | array {elements : List Element} (nonempty : elements ≠ []) (gaps : ∀ element ∈ elements, element.Gaps)
      (h : ∀ element ∈ elements, Written element.text element.value) :
      Written ('[' :: commaSeparated (elements.map Element.written) ++ [']'])
        (.array (elements.map Element.value))
  | emptyObject {gap : List Char} (h : IsGap gap) : Written ('{' :: gap ++ ['}']) (.object [])
  | object {members : List Member} (nonempty : members ≠ [])
      (untagged : (members.map Member.key).head? ≠ some Reader.tag)
      (keyed : ∀ member ∈ members, member.Keyed) (gaps : ∀ member ∈ members, member.element.Gaps)
      (h : ∀ member ∈ members, Written member.element.text member.element.value) :
      Written ('{' :: commaSeparated (members.map Member.written) ++ ['}'])
        (.object (Members.merged (members.map Member.entry)))
  | tagged {member : Member} {content kept : List Char} (tag : member.key = Reader.tag) (keyed : member.Keyed)
      (gaps : member.element.Gaps) (quoted : Quoted.Written member.element.text content)
      (numeral : Numeral.Written content kept) :
      Written ('{' :: member.written ++ ['}']) (.number (String.ofList kept))

/-- The text is JSON for the value, with space around it. -/
def IsText (text : List Char) (value : Json) : Prop :=
  ∃ element : Element, element.Gaps ∧ Written element.text element.value ∧
    text = element.written ∧ value = element.value

/-- The bytes are those of a JSON text for the value. -/
def Denoted (bytes : List UInt8) (value : Json) : Prop :=
  ∃ text, bytes = Utf8.encode text ∧ IsText text value

end Json

end TypeSketch
