import TypeSketch.Text.Utf8

/-! Quoted texts of JSON, read one byte at a time behind the opening quote. The content is gathered as bytes:
raw bytes go in as they are, escapes as the UTF-8 of what they stand for, and whether the whole is UTF-8 is
seen at the closing quote. -/
namespace TypeSketch

/-- What the next byte of a quoted text is read as. -/
inductive Quoted.Mode where
  | plain
  /-- Behind a backslash. -/
  | escape
  /-- Behind `\u` and fewer than four more bytes, the last of them first; `high` is the high surrogate before it. -/
  | digits (high : Option Nat) (read : List Char)
  /-- Behind the escape of a high surrogate: the backslash of another escape must come. -/
  | pairBackslash (high : Nat)
  /-- Behind that backslash: its `u` must come. -/
  | pairLetter (high : Nat)
  deriving Repr

/-- A quoted text that is being read; the bytes of its content so far, the last one first. -/
structure Quoted where
  content : List UInt8
  mode : Quoted.Mode
  deriving Repr

namespace Quoted

/-- What a byte does to a quoted text. -/
inductive Move where
  | more (text : Quoted)
  /-- It is the closing quote. -/
  | closes (content : List UInt8)
  | refused

def opened : Quoted := ⟨[], .plain⟩

def add (text : Quoted) (code : Nat) : Quoted :=
  ⟨(Utf8.encode [Char.ofNat code]).reverse ++ text.content, .plain⟩

/-- What the letter of a short escape stands for. -/
def short? : Char → Option Char
  | '"' => some '"'
  | '\\' => some '\\'
  | '/' => some '/'
  | 'b' => some '\x08'
  | 'f' => some '\x0c'
  | 'n' => some '\n'
  | 'r' => some '\r'
  | 't' => some '\t'
  | _ => none

def hexDigit? (c : Char) : Option Nat :=
  if c.isDigit then some (c.toNat - '0'.toNat)
  else if 'a' ≤ c ∧ c ≤ 'f' then some (c.toNat - 'a'.toNat + 10)
  else if 'A' ≤ c ∧ c ≤ 'F' then some (c.toNat - 'A'.toNat + 10)
  else none

/-- The value of hexadecimal digits, the last one first. -/
def hex? : List Char → Option Nat
  | [] => some 0
  | c :: rest => do
    let digit ← hexDigit? c
    let high ← hex? rest
    some (16 * high + digit)

def isHigh (unit : Nat) : Bool := 0xD800 ≤ unit && unit < 0xDC00
def isLow (unit : Nat) : Bool := 0xDC00 ≤ unit && unit < 0xE000

def pairCode (high low : Nat) : Nat := (high - 0xD800) * 0x400 + (low - 0xDC00) + 0x10000

/-- A UTF-16 unit, on its own or behind a high surrogate. Surrogates come in pairs, the high one first. -/
def unit (text : Quoted) : Option Nat → Nat → Move
  | none, unit =>
    if isHigh unit then .more { text with mode := .pairBackslash unit }
    else if isLow unit then .refused
    else .more (text.add unit)
  | some high, unit =>
    if isLow unit then .more (text.add (pairCode high unit)) else .refused

def next (text : Quoted) (byte : UInt8) : Move :=
  let c := Char.ofUInt8 byte
  match text.mode with
  | .plain =>
    if c = '"' then .closes text.content.reverse
    else if c = '\\' then .more { text with mode := .escape }
    else if byte < 0x20 then .refused
    else .more { text with content := byte :: text.content }
  | .escape =>
    if c = 'u' then .more { text with mode := .digits none [] }
    else
      match short? c with
      | some char => .more (text.add char.toNat)
      | none => .refused
  | .digits high read =>
    if read.length < 3 then .more { text with mode := .digits high (c :: read) }
    else
      match hex? (c :: read) with
      | some unit => text.unit high unit
      | none => .refused
  | .pairBackslash high =>
    if c = '\\' then .more { text with mode := .pairLetter high } else .refused
  | .pairLetter high =>
    if c = 'u' then .more { text with mode := .digits (some high) [] } else .refused

end Quoted

end TypeSketch
