import TypeSketch.Json.Value
import TypeSketch.Number.Kind
import TypeSketch.Signature
import TypeSketch.Log

/-! Guessing a type from one value. The first element stands for a whole list, and an object is not looked into. -/
namespace TypeSketch

namespace Json

/-- Goes from each non-empty list to its first element: how many lists there were, and what is in the last. -/
def descend (lists : Nat) : Json → Nat × Json
  | array (first :: _) => descend (lists + 1) first
  | value => (lists, value)
termination_by structural value => value

def leafSignature : Json → Logged Signature
  | null => pure .nullable
  | bool _ => pure .bool
  | string _ => pure .string
  | number text =>
    match NumberKind.ofText? text with
    | some .int => pure .int
    | some .float => pure .float
    | none => do
      .tell (.unreadable text)
      pure .unreadable
  | array _ => pure .emptyList
  | object _ => pure .record

/-- The guess for a value: that for what is inside its lists, in as many list types. -/
def signature (value : Json) : Logged Signature :=
  let (lists, inner) := descend 0 value
  Signature.nest lists <$> inner.leafSignature

end Json

def Members.signatures (members : Members) : Logged (List (String × Signature)) :=
  members.mapM fun member => (member.1, ·) <$> member.2.signature

end TypeSketch
