import TypeSketch.Text.Position

/-! Why a text is not read as JSON, and where. The place of a fault is given by what is left unread behind it,
so it does not change when more text follows; line and column come from the whole text. -/
namespace TypeSketch

/-- What is wrong. -/
inductive Fault.Cause where
  /-- The text ends where more must come. -/
  | ended
  /-- A byte that cannot come here. -/
  | unexpected
  /-- A quoted text whose content is UTF-8 only up to its last `tail` bytes. -/
  | illFormed (tail : Nat)
  /-- A tagged numeral whose content is no numeral; the place is one in that content. -/
  | notNumeral (place : Position)
  /-- A tagged numeral that is not quoted. -/
  | notQuoted
  deriving DecidableEq, Repr

/-- The kinds of fault that are told apart in a report. -/
inductive Fault.Category where
  | incomplete
  | malformed
  | mistyped
  deriving DecidableEq, Repr

/-- A cause, and the bytes that had not been read when it was found. -/
structure Fault where
  cause : Fault.Cause
  left : List UInt8
  deriving DecidableEq, Repr

namespace Fault

def Category.label : Category → String
  | .incomplete => "eof"
  | .malformed => "syntax"
  | .mistyped => "data"

def Cause.category : Cause → Category
  | .ended => .incomplete
  | .unexpected | .illFormed _ => .malformed
  | .notNumeral _ | .notQuoted => .mistyped

def category (fault : Fault) : Category := fault.cause.category

/-- Where a fault of the text `whole` is reported: behind what was read, but an ill-formed content
as far back in its line as it has bytes left, and a fault in a numeral's own text there. -/
def position (whole : List UInt8) (fault : Fault) : Position :=
  let here := Position.after (whole.take (whole.length - fault.left.length))
  match fault.cause with
  | .ended | .unexpected | .notQuoted => here
  | .illFormed tail => { here with column := here.column - tail }
  | .notNumeral place => place

end Fault

end TypeSketch
