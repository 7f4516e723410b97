import Mathlib.Logic.Relation
import TypeSketch.Proofs.Lists

/-! What a guess depends on. The lists of a value are counted on the way to its first elements and put around the guess
afterwards; that gives the type that recursion on the value does. The recursion goes from a list to its first element only,
so it is the same for values that differ elsewhere, and where the first elements end decides whether the type is a
placeholder. -/
namespace TypeSketch

namespace Json

def guess : Json → Signature
  | null => .nullable
  | bool _ => .bool
  | string _ => .string
  | number text =>
    match NumberKind.ofText? text with
    | some .int => .int
    | some .float => .float
    | none => .unreadable
  | array [] => .emptyList
  | array (first :: _) => .list first.guess
  | object _ => .record
termination_by structural value => value

end Json

end TypeSketch
