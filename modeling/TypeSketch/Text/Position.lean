/-! Positions in a byte text: the line, counted from one, and the bytes since that line began.
A position is reached by walking over the bytes before it, so it depends on nothing behind it. -/
namespace TypeSketch

/-- A place between two bytes of a text. -/
structure Position where
  line : Nat
  column : Nat
  deriving DecidableEq, Repr

namespace Position

def start : Position := ⟨1, 0⟩

/-- A line feed opens the next line; any other byte is one more column. -/
def advance (here : Position) (byte : UInt8) : Position :=
  if byte = 10 then ⟨here.line + 1, 0⟩ else ⟨here.line, here.column + 1⟩

def after (text : List UInt8) : Position := text.foldl advance start

/-- Walking on over more text goes on from where the text in front of it leads. -/
theorem after_append (front back : List UInt8) :
    after (front ++ back) = back.foldl advance (after front) := by
  simp [after, List.foldl_append]

end Position

end TypeSketch
