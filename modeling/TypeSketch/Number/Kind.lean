import TypeSketch.Number.Decimal
import TypeSketch.Number.Binary64

/-! Whether the text of a number is guessed as a whole one. The test is on the value as a double, not on the
notation: `4.0` is whole, and so is a number whose nearest double is. -/
namespace TypeSketch

/-- The two types that a number is guessed as. -/
inductive NumberKind where
  | int
  | float
  deriving DecidableEq, Repr

namespace NumberKind

/-- Whether the text is a whole number of 64 bits, with a sign or without one. -/
def isWord (text : List Char) : Bool :=
  match Decimal.integer? text with
  | none => false
  | some n => -0x8000000000000000 ≤ n && n < 0x10000000000000000

/-- The kind of a double: infinity and not-a-number have no whole part. -/
def ofMeaning : Decimal.Meaning → NumberKind
  | .finite value =>
    match Binary64.ofDecimal? value.significand value.exponent with
    | some x => if x.isWhole then int else float
    | none => float
  | .infinite | .notANumber => float

/-- The kind of a number's text; `none` if it is not the text of a number.
A whole number of 64 bits is known as one without reading it as a double. -/
def ofText? (text : String) : Option NumberKind :=
  if isWord text.toList then some int else (Decimal.meaning? text.toList).map ofMeaning

end NumberKind

end TypeSketch
