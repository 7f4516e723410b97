/-! JSON values. A number keeps the text it was written with, since that text and not a machine number
is what is looked at; an object is the list of its members in the order of their first appearance. -/
namespace TypeSketch

inductive Json where
  | null
  | bool (truth : Bool)
  | number (text : String)
  | string (text : String)
  | array (elements : List Json)
  | object (members : List (String × Json))
  deriving BEq, Inhabited, Repr

abbrev Members := List (String × Json)

namespace Members

def keys (members : Members) : List String := members.map Prod.fst

/-- The value of the field `name`; `none` if there is no such field, `some .null` if it holds a null. -/
def get? (members : Members) (name : String) : Option Json := members.lookup name

/-- The value of the field `name`, for callers who know that it is there: a missing field reads as null. -/
def getOrNull (members : Members) (name : String) : Json := (members.get? name).getD .null

/-- Gives `key` the value `value`: a key that is there keeps its place, a new one goes to the end. -/
def put (key : String) (value : Json) : Members → Members
  | [] => [(key, value)]
  | member :: rest =>
    if member.1 = key then (key, value) :: rest else member :: put key value rest

@[simp] theorem keys_cons (member : String × Json) (rest : Members) :
    keys (member :: rest) = member.1 :: keys rest := rfl

/-- Writing a field changes the keys only if the key is new. -/
theorem keys_put (members : Members) (key : String) (value : Json) :
    keys (put key value members) =
      if key ∈ keys members then keys members else keys members ++ [key] := by
  induction members with
  | nil => simp [put, keys]
  | cons member rest ih =>
    by_cases h : member.1 = key
    · simp [put, h]
    · simp only [put, h, if_false, keys_cons, ih, List.mem_cons, Ne.symm h, false_or]
      split <;> simp

@[simp] theorem get?_cons (member : String × Json) (rest : Members) (name : String) :
    get? (member :: rest) name = if name = member.1 then some member.2 else get? rest name := by
  obtain ⟨key, value⟩ := member
  by_cases h : name = key <;> simp [get?, List.lookup_cons, h, beq_eq_false_iff_ne.2]

/-- A field read after a write is the one written, any other is as before. -/
theorem get?_put (members : Members) (key name : String) (value : Json) :
    get? (put key value members) name = if name = key then some value else get? members name := by
  induction members with
  | nil => simp [put]
  | cons member rest ih =>
    by_cases h : member.1 = key
    · subst h
      simp only [put, if_true, get?_cons]
      split <;> rfl
    · simp only [put, h, if_false, get?_cons, ih]
      by_cases hn : name = member.1 <;> simp_all

end Members

end TypeSketch
