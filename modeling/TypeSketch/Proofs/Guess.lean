import TypeSketch.Guess
import TypeSketch.Proofs.Json.RoundTrip
import TypeSketch.Proofs.Number.Notation

/-! Guesses from values that were read. However a number came into such a value, plainly or as a tagged numeral, its
text reads as one, so nothing inside the value is guessed as unreadable and no guess tells anything. -/
namespace TypeSketch

/-- A numeral in the form that it is kept in is of some kind. -/
theorem NumberKind.ofText?_of_kept {text : String} (h : Numeral.Kept text.toList) : ∃ kind, ofText? text = some kind := by
  obtain ⟨q, hq⟩ := Decimal.denotes_of_written h.written
  obtain ⟨decimal, hd, -⟩ := Decimal.meaning?_of_denotes hq
  rw [ofText?, hd]
  split
  · exact ⟨.int, rfl⟩
  · exact ⟨_, rfl⟩

namespace Signature

/-- List types around a type leave what is innermost. -/
theorem innermost_nest (lists : Nat) (signature : Signature) : (nest lists signature).innermost = signature.innermost := by
  induction lists generalizing signature with
  | zero => rfl
  | succ lists ih => exact ih (list signature)

end Signature

namespace Json

/-- The values inside a value: itself, and those inside its elements and its fields. -/
inductive Within (inner : Json) : Json → Prop
  | self : Within inner inner
  | element {elements : List Json} {element : Json} (h : element ∈ elements) (within : Within inner element) :
      Within inner (.array elements)
  | field {members : Members} {member : String × Json} (h : member ∈ members) (within : Within inner member.2) :
      Within inner (.object members)

/-- Whatever is inside a well-formed value is well formed. -/
theorem WellFormed.within {inner value : Json} (h : value.WellFormed) (hi : inner.Within value) : inner.WellFormed := by
  induction hi with
  | self => exact h
  | element he _ ih =>
    cases h with
    | array elements => exact ih (elements _ he)
  | field hm _ ih =>
    cases h with
    | object _ _ fields => exact ih (fields _ hm)

/-- What is inside the lists of a value is inside the value. -/
theorem within_descend (lists : Nat) (value : Json) : (descend lists value).2.Within value := by
  fun_induction descend lists value with
  | case1 lists first rest ih => exact .element List.mem_cons_self ih
  | case2 lists value _ => exact .self

private theorem WellFormed.leafSignature {value : Json} (h : value.WellFormed) :
    value.leafSignature.events = [] ∧ value.leafSignature.value.innermost ≠ .unreadable := by
  cases h with
  | null | bool _ | string _ | array _ | object _ _ _ => exact ⟨rfl, nofun⟩
  | number kept =>
    obtain ⟨kind, hk⟩ := NumberKind.ofText?_of_kept kept
    rw [Json.leafSignature, hk]
    cases kind with
    | int | float => exact ⟨rfl, nofun⟩

/-- A value that a text can have is guessed without a word, and not as unreadable. -/
theorem WellFormed.signature {value : Json} (h : value.WellFormed) :
    value.signature.events = [] ∧ value.signature.value.innermost ≠ .unreadable := by
  have hleaf := (h.within (within_descend 0 value)).leafSignature
  simp only [Json.signature, Logged.map_def, Signature.innermost_nest]
  exact hleaf

end Json

namespace Members

/-- Each field is guessed by its value. -/
theorem signatures_eq_map (members : Members) :
    members.signatures.value = members.map fun member => (member.1, member.2.signature.value) := by
  induction members with
  | nil => rfl
  | cons member rest ih =>
    rw [signatures] at ih ⊢
    rw [List.mapM_cons, List.map_cons, ← ih]
    rfl

/-- The guesses for the fields are those for the values that are looked up under their names. -/
theorem value_signatures {members : Members} (h : members.keys.Nodup) :
    members.signatures.value.map (Prod.map id some) =
      members.keys.map fun name => (name, (members.get? name).map (·.signature.value)) := by
  rw [signatures_eq_map, List.map_map, keys, List.map_map]
  refine List.map_congr_left fun member hm => ?_
  simp only [Function.comp_apply, Prod.map_apply, id_eq, get?_of_mem h hm, Option.map_some]

/-- The guess under a name is that for the value under it. -/
theorem lookup_signatures (members : Members) (name : String) :
    members.signatures.value.lookup name = (members.get? name).map (·.signature.value) := by
  rw [signatures_eq_map]
  induction members with
  | nil => rfl
  | cons member rest ih =>
    rw [List.map_cons, List.lookup_cons, get?_cons, ih]
    by_cases h : name = member.1
    · simp [h]
    · rw [beq_eq_false_iff_ne.2 h, if_neg h]

/-- Members with distinct keys have the same guesses if they have the same keys in the same order, and under each the
same guess. -/
theorem signatures_eq_iff {first second : Members} (h : first.keys.Nodup) :
    first.signatures.value = second.signatures.value ↔ first.keys = second.keys ∧
      ∀ name, (first.get? name).map (·.signature.value) = (second.get? name).map (·.signature.value) := by
  constructor
  · intro he
    constructor
    · have hkeys := congrArg (List.map Prod.fst) he
      rw [signatures_eq_map, signatures_eq_map, List.map_map, List.map_map] at hkeys
      exact hkeys
    · intro name
      rw [← lookup_signatures, ← lookup_signatures, he]
  · rintro ⟨hkeys, hsame⟩
    have hinjective : Function.Injective (Prod.map (id : String → String) (some : Signature → Option Signature)) :=
      Function.injective_id.prodMap (Option.some_injective _)
    apply List.map_injective_iff.2 hinjective
    rw [value_signatures h, value_signatures (hkeys ▸ h), hkeys]
    exact List.map_congr_left fun name _ => by rw [hsame]

end Members

namespace Example
open Json

/-- Nothing inside the value of a text is guessed as unreadable: every number in it is of some kind, and no guess
tells anything. -/
theorem ofText_readable (bytes : List UInt8) {inner : Json} (h : inner.Within (ofText bytes).value) :
    inner.signature.value.innermost ≠ .unreadable ∧
      (∀ number, (Json.number number).Within inner → NumberKind.ofText? number ≠ none) ∧
      inner.signature.events = [] := by
  have hinner : inner.WellFormed := (wellFormed_ofText bytes).within h
  obtain ⟨hevents, hreadable⟩ := hinner.signature
  refine ⟨hreadable, fun number hn => ?_, hevents⟩
  cases hinner.within hn with
  | number kept =>
    obtain ⟨kind, hk⟩ := NumberKind.ofText?_of_kept kept
    rw [hk]
    exact Option.some_ne_none kind

/-- A list of a tagged numeral whose exponent has neither a small mark nor a sign. -/
def taggedList : List UInt8 := Utf8.encode ("[\x7b\"" ++ Reader.tag ++ "\":\"1E5\"\x7d]").toList

/-- It is kept with both, and so it is of some kind. -/
theorem ofText_readable_tagged :
    (Json.array [.number "1e+5"]).Within (ofText taggedList).value ∧
      (Json.array [.number "1e+5"]).signature.value.innermost ≠ .unreadable ∧
      ((Json.number "1e+5").Within (.array [.number "1e+5"]) ∧ NumberKind.ofText? "1e+5" ≠ none) ∧
      (Json.array [.number "1e+5"]).signature.events = [] := by
  have hcompact : (ofText taggedList).value.compact = "[1e+5]".toList := by decide +kernel
  have hplain : (ofText (Utf8.encode "[1e+5]".toList)).value = .array [.number "1e+5"] := by rfl
  have hback := ofText_compact (wellFormed_ofText taggedList)
  rw [hcompact] at hback
  have hvalue : (ofText taggedList).value = .array [.number "1e+5"] := (congrArg Logged.value hback).symm.trans hplain
  have hlist : (Json.array [.number "1e+5"]).Within (ofText taggedList).value := hvalue ▸ .self
  have hnumber : (Json.number "1e+5").Within (.array [.number "1e+5"]) := .element List.mem_cons_self .self
  obtain ⟨hreadable, hkind, hevents⟩ := ofText_readable taggedList hlist
  exact ⟨hlist, hreadable, ⟨hnumber, hkind _ hnumber⟩, hevents⟩

end Example

end TypeSketch
