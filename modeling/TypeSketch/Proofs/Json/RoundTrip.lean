import TypeSketch.Json.Compact
import TypeSketch.Proofs.Json.Soundness

/-! The compact text of a value is JSON for it, if the value is one that a text can have: numbers in the form that
they are kept in, distinct keys, and no tag in front. What is read is such a value, so reading its compact text
gives it back. -/
namespace TypeSketch

/-- A numeral in the form that numbers are kept in: an exponent has the mark `e` and a sign. -/
inductive Numeral.Kept : List Char → Prop
  | plain {minus whole fraction : List Char} (signs : minus = [] ∨ minus = ['-']) (wholes : Whole whole)
      (fractions : Fraction fraction) : Kept (minus ++ whole ++ fraction)
  | power {minus whole fraction digits : List Char} {sign : Char} (signs : minus = [] ∨ minus = ['-'])
      (wholes : Whole whole) (fractions : Fraction fraction) (signed : sign = '+' ∨ sign = '-')
      (powers : Digits digits) : Kept (minus ++ whole ++ fraction ++ 'e' :: sign :: digits)

/-- Every numeral is kept in that form. -/
theorem Numeral.Written.keeps {text kept : List Char} (h : Written text kept) : Kept kept := by
  obtain ⟨signs, wholes, fractions, exponents⟩ := h
  cases exponents with
  | absent => simpa using Kept.plain signs wholes fractions
  | unsigned marks digits => exact .power signs wholes fractions (.inl rfl) digits
  | signed marks signed digits => exact .power signs wholes fractions signed digits

/-- What is kept is a numeral that is kept as it is written. -/
theorem Numeral.Kept.written {text : List Char} (h : Kept text) : Written text text := by
  cases h with
  | plain signs wholes fractions => simpa using Written.mk signs wholes fractions .absent
  | power signs wholes fractions signed powers =>
    exact .mk signs wholes fractions (.signed (.inl rfl) signed powers)

namespace Json

/-- The values that a text can have. -/
inductive WellFormed : Json → Prop
  | null : WellFormed .null
  | bool (truth : Bool) : WellFormed (.bool truth)
  | number {text : String} (kept : Numeral.Kept text.toList) : WellFormed (.number text)
  | string (text : String) : WellFormed (.string text)
  | array {elements : List Json} (h : ∀ element ∈ elements, WellFormed element) : WellFormed (.array elements)
  | object {members : Members} (distinct : members.keys.Nodup) (untagged : members.keys.head? ≠ some Reader.tag)
      (h : ∀ member ∈ members, WellFormed member.2) : WellFormed (.object members)

/-- The grammar denotes well-formed values only. -/
theorem Written.wellFormed {text : List Char} {value : Json} (h : Written text value) : value.WellFormed := by
  induction h with
  | null => exact .null
  | true | false => exact .bool _
  | number h => exact .number (by rw [String.toList_ofList]; exact h.keeps)
  | string _ => exact .string _
  | emptyArray _ => exact .array (by simp)
  | array _ _ _ ih => exact .array (by simpa using ih)
  | emptyObject _ => exact .object .nil (by simp [Members.keys]) (by simp)
  | object _ untagged _ _ _ ih =>
    refine .object (Members.nodup_merged _) ?_ fun entry he => ?_
    · rw [Members.head?_keys_merged]
      simpa [Members.keys, Member.entry] using untagged
    · obtain ⟨member, hm, rfl⟩ := List.mem_map.1 (Members.mem_of_mem_merged he)
      exact ih member hm
  | tagged _ _ _ _ numeral => exact .number (by rw [String.toList_ofList]; exact numeral.keeps)

private theorem hexDigit_digit {n : Nat} (h : n < 16) : Quoted.HexDigit (hexDigit n) n := by
  unfold hexDigit
  split
  · rename_i hn
    exact .decimal hn
  · rename_i hn
    obtain ⟨m, rfl⟩ := Nat.exists_eq_add_of_le (Nat.not_lt.1 hn)
    have he : 87 + (10 + m) = 'a'.toNat + m := by
      rw [← Nat.add_assoc]
      rfl
    rw [he]
    exact .lower (by omega)

private theorem escaped_spelling (c : Char) : Quoted.Spelling (escaped c) c := by
  unfold escaped
  split
  · exact .escape (.short .quote)
  · exact .escape (.short .backslash)
  · exact .escape (.short .backspace)
  · exact .escape (.short .formFeed)
  · exact .escape (.short .lineFeed)
  · exact .escape (.short .carriageReturn)
  · exact .escape (.short .tab)
  · rename_i hquote hbackslash _ _ _ _ _
    split
    · rename_i hc
      refine .escape (.unit ?_)
      have hz : Quoted.HexDigit '0' 0 := @Quoted.HexDigit.decimal 0 (by decide)
      have hu := Quoted.UnitEscape.mk hz hz (hexDigit_digit (n := c.toNat / 16) (by omega))
        (hexDigit_digit (n := c.toNat % 16) (by omega))
      rwa [show ((0 * 16 + 0) * 16 + c.toNat / 16) * 16 + c.toNat % 16 = c.toNat by omega] at hu
    · rename_i hc
      exact .raw (Nat.not_lt.1 hc) hquote hbackslash

/-- A text that is escaped character by character is a spelling of itself. -/
theorem inside_escaped (text : List Char) : Quoted.Inside (text.flatMap escaped) text := by
  induction text with
  | nil => exact .nil
  | cons c text ih => exact .cons (escaped_spelling c) ih

private def quoted (text : String) : List Char := '"' :: text.toList.flatMap escaped ++ ['"']

private theorem quoted_written (text : String) : Quoted.Written (quoted text) text.toList :=
  .mk (inside_escaped text.toList)

private theorem quotedBefore_eq (text : String) (rest : List Char) : quotedBefore text rest = quoted text ++ rest := by
  simp [quotedBefore, quoted]

private def compactMember (member : String × Json) : List Char := quoted member.1 ++ ':' :: compact member.2

mutual

private theorem compactBefore_eq (value : Json) (rest : List Char) :
    value.compactBefore rest = value.compact ++ rest := by
  cases value with
  | null => rfl
  | bool truth => cases truth <;> rfl
  | number text => simp [compact, compactBefore]
  | string text => simp [compact, compactBefore, quotedBefore_eq]
  | array elements => simp [compact, compactBefore, elementsBefore_eq]
  | object members => simp [compact, compactBefore, membersBefore_eq]

private theorem elementsBefore_eq (elements : List Json) (rest : List Char) :
    elementsBefore elements rest = commaSeparated (elements.map compact) ++ rest := by
  cases elements with
  | nil => rfl
  | cons value more =>
    rw [elementsBefore, compactBefore_eq value]
    cases more with
    | nil => simp [commaSeparated_singleton]
    | cons second more =>
      rw [elementsBefore_eq (second :: more), @List.map_cons _ _ compact value, commaSeparated_cons _ (by simp)]
      simp

private theorem membersBefore_eq (members : Members) (rest : List Char) :
    membersBefore members rest = commaSeparated (members.map compactMember) ++ rest := by
  cases members with
  | nil => rfl
  | cons member more =>
    rw [membersBefore, quotedBefore_eq, compactBefore_eq member.2]
    cases more with
    | nil => simp [commaSeparated_singleton, compactMember]
    | cons second more =>
      rw [membersBefore_eq (second :: more), @List.map_cons _ _ compactMember member, commaSeparated_cons _ (by simp)]
      simp [compactMember]

end

private theorem compact_array (elements : List Json) :
    compact (.array elements) = '[' :: commaSeparated (elements.map compact) ++ [']'] := by
  rw [compact, compactBefore, elementsBefore_eq, List.cons_append]

private theorem compact_object (members : Members) :
    compact (.object members) = '{' :: commaSeparated (members.map compactMember) ++ ['}'] := by
  rw [compact, compactBefore, membersBefore_eq, List.cons_append]

private def bareElement (value : Json) : Element := ⟨[], value.compact, [], value⟩

private def bareMember (entry : String × Json) : Member := ⟨[], quoted entry.1, [], entry.1, bareElement entry.2⟩

private theorem bareElement_gaps (value : Json) : (bareElement value).Gaps := ⟨isGap_nil, isGap_nil⟩

private theorem bareMember_keyed (entry : String × Json) : (bareMember entry).Keyed :=
  ⟨isGap_nil, quoted_written entry.1, isGap_nil⟩

private theorem bareElement_written (value : Json) : (bareElement value).written = value.compact := by
  simp [bareElement, Element.written]

private theorem bareMember_written (entry : String × Json) : (bareMember entry).written = compactMember entry := by
  simp [bareMember, Member.written, compactMember, bareElement_written]

private theorem written_array {values : List Json} (hn : values ≠ [])
    (h : ∀ value ∈ values, Written value.compact value) : Written (compact (.array values)) (.array values) := by
  have harray := @Written.array (values.map bareElement) (by simpa using hn)
    (List.forall_mem_map.2 fun value _ => bareElement_gaps value) (List.forall_mem_map.2 h)
  have htexts : (values.map bareElement).map Element.written = values.map compact := by
    rw [List.map_map]
    exact List.map_congr_left fun value _ => bareElement_written value
  have hvalues : (values.map bareElement).map Element.value = values := by
    rw [List.map_map]
    exact List.map_id values
  rwa [htexts, hvalues, ← compact_array] at harray

private theorem written_object {entries : Members} (hn : entries ≠ []) (distinct : entries.keys.Nodup)
    (untagged : entries.keys.head? ≠ some Reader.tag) (h : ∀ entry ∈ entries, Written entry.2.compact entry.2) :
    Written (compact (.object entries)) (.object entries) := by
  have hkeys : (entries.map bareMember).map Member.key = entries.keys := by
    rw [List.map_map]
    rfl
  have hobject := @Written.object (entries.map bareMember) (by simpa using hn) (hkeys ▸ untagged)
    (List.forall_mem_map.2 fun entry _ => bareMember_keyed entry)
    (List.forall_mem_map.2 fun entry _ => bareElement_gaps entry.2) (List.forall_mem_map.2 h)
  have htexts : (entries.map bareMember).map Member.written = entries.map compactMember := by
    rw [List.map_map]
    exact List.map_congr_left fun entry _ => bareMember_written entry
  have hentries : (entries.map bareMember).map Member.entry = entries := by
    rw [List.map_map]
    exact List.map_id entries
  rwa [htexts, hentries, Members.merged_of_nodup distinct, ← compact_object] at hobject

/-- The compact text of a well-formed value is JSON for that value. -/
theorem WellFormed.written {value : Json} (h : value.WellFormed) : Written value.compact value := by
  induction h with
  | null => exact .null
  | bool truth =>
    cases truth with
    | false => exact .false
    | true => exact .true
  | @number text kept =>
    have hn := Written.number kept.written
    rw [String.ofList_toList] at hn
    rwa [compact, compactBefore, List.append_nil]
  | string text =>
    have hs := Written.string (quoted_written text)
    rw [String.ofList_toList] at hs
    rwa [compact, compactBefore, quotedBefore_eq, List.append_nil]
  | @array elements h ih =>
    cases elements with
    | nil => exact .emptyArray isGap_nil
    | cons first more => exact written_array (by simp) ih
  | @object members distinct untagged h ih =>
    cases members with
    | nil => exact .emptyObject isGap_nil
    | cons first more => exact written_object (by simp) distinct untagged ih

end Json

namespace Example
open Json

/-- Every text stands for a well-formed value, the fallback included. -/
theorem wellFormed_ofText (bytes : List UInt8) : (ofText bytes).value.WellFormed := by
  cases h : read bytes with
  | ok value =>
    obtain ⟨text, -, element, -, hw, -, rfl⟩ := read_eq_ok_iff.1 h
    rw [ofText_of_ok h]
    exact hw.wellFormed
  | error fault =>
    rw [ofText_of_error h]
    exact .object .nil (by simp [Members.keys]) (by simp)

/-- The compact text of a well-formed value is read as that value. -/
theorem ofText_compact {value : Json} (h : value.WellFormed) : ofText (Utf8.encode value.compact) = ⟨value, []⟩ := by
  rw [ofText_eq_pure_iff, read_eq_ok_iff]
  exact ⟨value.compact, rfl, bareElement value, bareElement_gaps value, h.written, (bareElement_written value).symm,
    rfl⟩

/-- Reading undoes writing: what is read is well formed, a well-formed value is read back from its compact text
and nothing is told, and so is what was read; and two texts with one compact text stand for one value. -/
theorem ofText_roundTrip :
    (∀ bytes, (ofText bytes).value.WellFormed) ∧
    (∀ value, value.WellFormed → ofText (Utf8.encode value.compact) = ⟨value, []⟩) ∧
    (∀ bytes, ofText (Utf8.encode (ofText bytes).value.compact) = ⟨(ofText bytes).value, []⟩) ∧
    (∀ front back, (ofText front).value.compact = (ofText back).value.compact →
      (ofText front).value = (ofText back).value) := by
  have hback (bytes : List UInt8) := ofText_compact (wellFormed_ofText bytes)
  refine ⟨wellFormed_ofText, fun _ => ofText_compact, hback, fun front other he => ?_⟩
  -- both values are what is read from the one compact text
  have hf := hback front
  rw [he, hback other] at hf
  exact (congrArg Logged.value hf).symm

/-- A number with an exponent in an array, and the empty array with and without a space in it. -/
theorem ofText_roundTrip_arrays :
    ((Json.array [.number "1e+2"]).WellFormed ∧
      ofText (Utf8.encode (Json.array [.number "1e+2"]).compact) = ⟨.array [.number "1e+2"], []⟩) ∧
    ((ofText [91, 93]).value.compact = (ofText [91, 32, 93]).value.compact ∧
      (ofText [91, 93]).value = (ofText [91, 32, 93]).value) := by
  have hone : Numeral.Whole ['1'] := .digits ⟨List.cons_ne_nil _ _, List.forall_mem_singleton.2 rfl⟩ (by decide)
  have htwo : Numeral.Digits ['2'] := ⟨List.cons_ne_nil _ _, List.forall_mem_singleton.2 rfl⟩
  have hkept : Numeral.Kept "1e+2".toList := .power (.inl rfl) hone .absent (.inl rfl) htwo
  have harray : (Json.array [.number "1e+2"]).WellFormed := .array (List.forall_mem_singleton.2 (.number hkept))
  have hempty : (ofText [91, 93]).value.compact = (ofText [91, 32, 93]).value.compact := by rfl
  exact ⟨⟨harray, ofText_roundTrip.2.1 _ harray⟩, hempty, ofText_roundTrip.2.2.2 _ _ hempty⟩

end Example

end TypeSketch
