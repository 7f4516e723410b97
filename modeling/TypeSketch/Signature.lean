/-! Type signatures as they are guessed from one example, and their text. -/
namespace TypeSketch

/-- A guessed type. One example may leave open what a type is; such places are placeholders. -/
inductive Signature where
  | bool
  | string
  | int
  | float
  /-- A list of whatever its first element is. -/
  | list (element : Signature)
  /-- An empty list, which says nothing of its elements. -/
  | emptyList
  /-- A null, which says nothing of what it is a null of. -/
  | nullable
  /-- An object of any shape. -/
  | record
  /-- A number whose text does not read as one. -/
  | unreadable
  deriving DecidableEq, Repr

namespace Signature

def textBehind (front : String) : Signature → String
  | bool => front ++ "Bool"
  | string => front ++ "String"
  | int => front ++ "Int"
  | float => front ++ "Float"
  | list element => element.textBehind (front ++ "List ")
  | emptyList => front ++ "List a"
  | nullable => front ++ "Maybe _Unknown"
  | record => front ++ "Something"
  | unreadable => front ++ "Unknown"

def text (signature : Signature) : String := signature.textBehind ""

/-- The text of a type does not depend on what is in front of it. -/
theorem textBehind_eq (front : String) (signature : Signature) :
    signature.textBehind front = front ++ signature.text := by
  induction signature generalizing front with
  | list element ih =>
    rw [text, textBehind, textBehind, ih, ih ("" ++ "List "), String.empty_append, String.append_assoc]
  | _ => simp [text, textBehind]

/-- A list type is one word in front of its element's type. -/
theorem text_list (element : Signature) : (list element).text = "List " ++ element.text := by
  rw [text, textBehind, textBehind_eq, String.empty_append]

def depth : Signature → Nat
  | list element => element.depth + 1
  | _ => 0

def innermost : Signature → Signature
  | list element => element.innermost
  | leaf => leaf

/-- Whether the innermost type is one that the example could not settle. -/
def isPlaceholder (signature : Signature) : Bool :=
  match signature.innermost with
  | nullable | emptyList | record | unreadable | list _ => true
  | bool | string | int | float => false

def nest : Nat → Signature → Signature
  | 0, signature => signature
  | n + 1, signature => nest n (list signature)

end Signature

end TypeSketch
