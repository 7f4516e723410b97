/-! The numerals of JSON, read one character at a time: an optional minus, a whole part without a leading zero,
an optional fraction and an optional exponent. The text is kept; only the exponent is put into one form. -/
namespace TypeSketch.Numeral

/-- How far a numeral has been read. -/
inductive Stage where
  /-- Behind the minus: a digit must come. -/
  | minus
  /-- Behind a whole part that is zero. -/
  | zero
  /-- Inside a whole part that begins with another digit. -/
  | whole
  /-- Behind the point: a digit must come. -/
  | point
  | fraction
  /-- Behind the exponent mark: a sign or a digit must come. -/
  | mark
  /-- Behind the sign of the exponent: a digit must come. -/
  | sign
  | power
  deriving DecidableEq, Repr

/-- What a character does to a numeral. -/
inductive Move where
  /-- It belongs to the numeral. -/
  | more (stage : Stage)
  /-- The numeral was complete before it. -/
  | ends
  /-- No numeral has it here. `taken` tells whether it is passed over on being refused: after a sign or an
  exponent mark the character is taken and then judged, elsewhere it is only looked at. -/
  | refused (taken : Bool)
  deriving DecidableEq, Repr

def start? (c : Char) : Option Stage :=
  if c = '-' then some .minus
  else if c = '0' then some .zero
  else if c.isDigit then some .whole
  else none

def Stage.isComplete : Stage → Bool
  | .zero | .whole | .fraction | .power => true
  | .minus | .point | .mark | .sign => false

def isMark (c : Char) : Bool := c = 'e' || c = 'E'

def Stage.next : Stage → Char → Move
  | .minus, c => if c = '0' then .more .zero else if c.isDigit then .more .whole else .refused true
  | .zero, c =>
    if c.isDigit then .refused false
    else if c = '.' then .more .point
    else if isMark c then .more .mark
    else .ends
  | .whole, c =>
    if c.isDigit then .more .whole
    else if c = '.' then .more .point
    else if isMark c then .more .mark
    else .ends
  | .point, c => if c.isDigit then .more .fraction else .refused false
  | .fraction, c =>
    if c.isDigit then .more .fraction else if isMark c then .more .mark else .ends
  | .mark, c =>
    if c = '+' ∨ c = '-' then .more .sign else if c.isDigit then .more .power else .refused true
  | .sign, c => if c.isDigit then .more .power else .refused true
  | .power, c => if c.isDigit then .more .power else .ends

/-- The text that a numeral is kept as: the exponent mark is `e`, and the exponent has a sign. -/
def stored : List Char → List Char
  | [] => []
  | c :: rest =>
    if isMark c then
      match rest with
      | '+' :: _ | '-' :: _ => 'e' :: rest
      | _ => 'e' :: '+' :: rest
    else c :: stored rest

/-- Reads on from a stage. If what follows does not complete one numeral exactly: the number of characters
up to and with the one behind the last that was read, as far as there is one. -/
def faultFrom (stage : Stage) (passed : Nat) : List Char → Option Nat
  | [] => if stage.isComplete then none else some passed
  | c :: rest =>
    match stage.next c with
    | .more next => faultFrom next (passed + 1) rest
    | .ends | .refused false => some (passed + 1)
    | .refused true => some (passed + 1 + min 1 rest.length)

/-- `none` if the text is one numeral and nothing else, otherwise how many of its characters
lead up to the fault and over it. -/
def fault? : List Char → Option Nat
  | [] => some 0
  | c :: rest =>
    match start? c with
    | none => some 1
    | some stage => faultFrom stage 1 rest

end TypeSketch.Numeral
