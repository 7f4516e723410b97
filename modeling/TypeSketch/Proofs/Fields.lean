import TypeSketch.Proofs.Lists

/-! The fields of an object that is read. They are the members as they are written, one for each key, and every view
of the object shows the same: its keys, a lookup in it and the guesses for its fields. -/
namespace TypeSketch

namespace Json

/-- A key, and a text with a value of its own, as they are written in an object. -/
structure Pair where
  beforeKey : List Char
  literal : List Char
  afterKey : List Char
  key : String
  beforeText : List Char
  text : List UInt8
  afterText : List Char

namespace Pair

def bytes (pair : Pair) : List UInt8 :=
  Utf8.encode (pair.beforeKey ++ pair.literal ++ pair.afterKey ++ ':' :: pair.beforeText) ++ pair.text ++
    Utf8.encode pair.afterText

def value (pair : Pair) : Json := (Example.ofText pair.text).value

def entry (pair : Pair) : String × Json := (pair.key, pair.value)

/-- The key is written in its literal, the text is JSON, and only gaps stand around them. -/
structure Valid (pair : Pair) : Prop where
  beforeKey : IsGap pair.beforeKey
  literal : Quoted.Written pair.literal pair.key.toList
  afterKey : IsGap pair.afterKey
  beforeText : IsGap pair.beforeText
  text : (Example.ofText pair.text).events = []
  afterText : IsGap pair.afterText

private theorem Valid.member {pair : Pair} (h : pair.Valid) :
    ∃ member : Member, member.Keyed ∧ member.element.Gaps ∧ Written member.element.text member.element.value ∧
      Utf8.encode member.written = pair.bytes ∧ member.entry = pair.entry := by
  obtain ⟨element, hg, hw, ht, hv⟩ := element_of_events h.text
  refine ⟨⟨pair.beforeKey, pair.literal, pair.afterKey, pair.key,
    ⟨pair.beforeText ++ element.before, element.text, element.after ++ pair.afterText, element.value⟩⟩,
    ⟨h.beforeKey, h.literal, h.afterKey⟩, hg.widen h.beforeText h.afterText, hw, ?_, ?_⟩
  · rw [bytes, ← ht]
    simp [Member.written, Element.written]
  · rw [Member.entry, entry, hv, value]

end Pair

def objectBytes (before after : List Char) (pairs : List Pair) : List UInt8 :=
  Utf8.encode (before ++ ['{']) ++ [44].intercalate (pairs.map Pair.bytes) ++ Utf8.encode ('}' :: after)

private theorem members_of_valid {pairs : List Pair} (h : ∀ pair ∈ pairs, pair.Valid) :
    ∃ members : List Member, (∀ member ∈ members, member.Keyed) ∧ (∀ member ∈ members, member.element.Gaps) ∧
      (∀ member ∈ members, Written member.element.text member.element.value) ∧
      members.map (Utf8.encode ∘ Member.written) = pairs.map Pair.bytes ∧
      members.map Member.entry = pairs.map Pair.entry := by
  induction pairs with
  | nil => exact ⟨[], by simp, by simp, by simp, rfl, rfl⟩
  | cons pair pairs ih =>
    rw [List.forall_mem_cons] at h
    obtain ⟨member, hk, hg, hw, hb, he⟩ := h.1.member
    obtain ⟨members, hks, hgs, hws, hbs, hes⟩ := ih h.2
    refine ⟨member :: members, List.forall_mem_cons.2 ⟨hk, hks⟩, List.forall_mem_cons.2 ⟨hg, hgs⟩,
      List.forall_mem_cons.2 ⟨hw, hws⟩, ?_, ?_⟩
    · rw [List.map_cons, List.map_cons, hbs, Function.comp_apply, hb]
    · rw [List.map_cons, List.map_cons, hes, he]

/-- An object that is written with valid pairs denotes their entries, merged. -/
theorem denoted_objectBytes {before after : List Char} (hb : IsGap before) (ha : IsGap after) {pairs : List Pair}
    (nonempty : pairs ≠ []) (valid : ∀ pair ∈ pairs, pair.Valid)
    (untagged : (pairs.map Pair.key).head? ≠ some Reader.tag) :
    Denoted (objectBytes before after pairs) (.object (Members.merged (pairs.map Pair.entry))) := by
  obtain ⟨members, hk, hg, hw, hbytes, hentries⟩ := members_of_valid valid
  have hkeys : members.map Member.key = pairs.map Pair.key := by
    have hfirst := congrArg (List.map Prod.fst) hentries
    rwa [List.map_map, List.map_map] at hfirst
  have hmembers : members ≠ [] := by
    rintro rfl
    exact nonempty (List.map_eq_nil_iff.1 hentries.symm)
  have hobject := Written.object hmembers (hkeys ▸ untagged) hk hg hw
  refine ⟨_, ?_, ⟨before, _, after, _⟩, ⟨hb, ha⟩, hentries ▸ hobject, rfl, rfl⟩
  rw [objectBytes, ← hbytes, ← List.map_map, ← encode_commaSeparated]
  simp [Element.written]

end Json

namespace Example
open Json

/-- The fields of an object. Its keys are those that are written, each where it comes first; under a name it has
the value of the last text that is written with that name, and none if there is none; and the guesses for its fields
are those for the values under its keys. -/
theorem ofText_objectBytes {before after : List Char} (hb : IsGap before) (ha : IsGap after) {pairs : List Pair}
    (nonempty : pairs ≠ []) (valid : ∀ pair ∈ pairs, pair.Valid)
    (untagged : (pairs.map Pair.key).head? ≠ some Reader.tag) :
    ∃ members : Members, ofText (objectBytes before after pairs) = ⟨.object members, []⟩ ∧
      members.keys = (pairs.map Pair.key).eraseDups ∧ members.keys.Nodup ∧
      (∀ name, members.get? name = (pairs.filter (·.key = name)).getLast?.map fun pair => (ofText pair.text).value) ∧
      (∀ name value, members.get? name = some value → members.getOrNull name = value) ∧
      (∀ name, members.get? name = none → members.getOrNull name = .null) ∧
      members.signatures.value.map (Prod.map id some) =
        members.keys.map fun name => (name, (members.get? name).map (·.signature.value)) := by
  have hdenoted := denoted_objectBytes hb ha nonempty valid untagged
  refine ⟨_, ofText_eq_pure_iff.2 (read_eq_ok_iff.2 hdenoted), ?_, Members.nodup_merged _, fun name => ?_,
    fun name value h => ?_, fun name h => ?_, Members.value_signatures (Members.nodup_merged _)⟩
  · rw [Members.keys_merged, Members.keys, List.map_map]
    rfl
  · rw [Members.get?_merged_eq_getLast?, List.filter_map, List.getLast?_map, Option.map_map]
    rfl
  · rw [Members.getOrNull, h, Option.getD_some]
  · rw [Members.getOrNull, h, Option.getD_none]

def twice : List Pair :=
  [⟨[' '], ['"', 'a', '"'], [], "a", [], [49], ['\n']⟩,
    ⟨[], ['"', '\\', 'u', '0', '0', '6', '1', '"'], ['\t'], "a", [], [91, 32, 93], []⟩]

/-- The key is one field, with the empty list as its value. -/
theorem ofText_objectBytes_twice :
    twice ≠ [] ∧ (∀ pair ∈ twice, pair.Valid) ∧ (twice.map Pair.key).head? ≠ some Reader.tag ∧
      ∃ members : Members, ofText (objectBytes [] ['\r'] twice) = ⟨.object members, []⟩ ∧ members.keys = ["a"] ∧
        members.get? "a" = some (.array []) ∧ members.getOrNull "a" = .array [] ∧
        members.get? "b" = none ∧ members.getOrNull "b" = .null ∧
        members.signatures.value.map (Prod.map id some) = [("a", some .emptyList)] := by
  have hplain : Quoted.Written ['"', 'a', '"'] ['a'] :=
    .mk (.cons (.raw (by decide) (by decide) (by decide)) .nil)
  have hdigit {n : Nat} (h : n < 10) : Quoted.HexDigit (Char.ofNat ('0'.toNat + n)) n := .decimal h
  have hunit : Quoted.UnitEscape ['\\', 'u', '0', '0', '6', '1'] 'a'.toNat :=
    .mk (hdigit (n := 0) (by decide)) (hdigit (n := 0) (by decide)) (hdigit (n := 6) (by decide))
      (hdigit (n := 1) (by decide))
  have hescape : Quoted.Written ['"', '\\', 'u', '0', '0', '6', '1', '"'] ['a'] :=
    .mk (.cons (.escape (.unit hunit)) .nil)
  have hvalid : ∀ pair ∈ twice, pair.Valid := by
    rw [twice, List.forall_mem_cons, List.forall_mem_singleton]
    exact ⟨⟨by simp [IsGap], hplain, isGap_nil, isGap_nil, by rfl, by simp [IsGap]⟩,
      ⟨isGap_nil, hescape, by simp [IsGap], isGap_nil, by rfl, isGap_nil⟩⟩
  have huntagged : (twice.map Pair.key).head? ≠ some Reader.tag := by decide
  obtain ⟨members, hm, hk, -, hg, hs, hn, hsig⟩ :=
    @ofText_objectBytes [] ['\r'] isGap_nil (by simp [IsGap]) twice (List.cons_ne_nil _ _) hvalid huntagged
  have hkeys : members.keys = ["a"] := by
    rw [hk]
    decide
  have ha : members.get? "a" = some (.array []) := by
    rw [hg]
    rfl
  have hb : members.get? "b" = none := by
    rw [hg]
    rfl
  refine ⟨List.cons_ne_nil _ _, hvalid, huntagged, members, hm, hkeys, ha, hs _ _ ha, hb, hn _ hb, ?_⟩
  rw [hsig, hkeys, List.map_singleton, ha]
  rfl

end Example

end TypeSketch
