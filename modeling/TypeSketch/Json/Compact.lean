import TypeSketch.Json.Value

/-! The compact text of a value: no space anywhere, numbers as they are kept, and in quoted texts an escape only
for the quote, the backslash and the characters below the space. -/
namespace TypeSketch.Json

def hexDigit (n : Nat) : Char := if n < 10 then Char.ofNat (48 + n) else Char.ofNat (87 + n)

/-- How a character is written between quotes. -/
def escaped (c : Char) : List Char :=
  match c with
  | '"' => ['\\', '"']
  | '\\' => ['\\', '\\']
  | '\x08' => ['\\', 'b']
  | '\x0c' => ['\\', 'f']
  | '\n' => ['\\', 'n']
  | '\r' => ['\\', 'r']
  | '\t' => ['\\', 't']
  | _ =>
    if c.toNat < 0x20 then ['\\', 'u', '0', '0', hexDigit (c.toNat / 16), hexDigit (c.toNat % 16)]
    else [c]

def quotedBefore (text : String) (rest : List Char) : List Char :=
  '"' :: (text.toList.flatMap escaped ++ '"' :: rest)

mutual

/-- The compact text of a value, in front of `rest`. -/
def compactBefore : Json → List Char → List Char
  | null, rest => 'n' :: 'u' :: 'l' :: 'l' :: rest
  | bool true, rest => 't' :: 'r' :: 'u' :: 'e' :: rest
  | bool false, rest => 'f' :: 'a' :: 'l' :: 's' :: 'e' :: rest
  | number text, rest => text.toList ++ rest
  | string text, rest => quotedBefore text rest
  | array elements, rest => '[' :: elementsBefore elements (']' :: rest)
  | object members, rest => '{' :: membersBefore members ('}' :: rest)
termination_by structural value => value

def elementsBefore : List Json → List Char → List Char
  | [], rest => rest
  | value :: more, rest =>
    compactBefore value (if more.isEmpty then rest else ',' :: elementsBefore more rest)
termination_by structural elements => elements

def membersBefore : List (String × Json) → List Char → List Char
  | [], rest => rest
  | member :: more, rest =>
    quotedBefore member.1
      (':' :: compactBefore member.2 (if more.isEmpty then rest else ',' :: membersBefore more rest))
termination_by structural members => members

end

def compact (value : Json) : List Char := value.compactBefore []

end TypeSketch.Json
