import TypeSketch.Proofs.Guess

/-! The grammar of JSON without the tag: no key is special, and the members of an object are there as they are written,
as often as their keys are repeated. What a text is read as depends on the value only that it spells out in this grammar;
it is that value, merged, if no object in it has the tag in front. -/
namespace TypeSketch.Json

/-- The text, without space around it, spells out the value. -/
inductive Verbatim : List Char → Json → Prop
  | null : Verbatim ['n', 'u', 'l', 'l'] .null
  | true : Verbatim ['t', 'r', 'u', 'e'] (.bool .true)
  | false : Verbatim ['f', 'a', 'l', 's', 'e'] (.bool .false)
  | number {text kept : List Char} (h : Numeral.Written text kept) : Verbatim text (.number (String.ofList kept))
  | string {text content : List Char} (h : Quoted.Written text content) :
      Verbatim text (.string (String.ofList content))
  | emptyArray {gap : List Char} (h : IsGap gap) : Verbatim ('[' :: gap ++ [']']) (.array [])
  | array {elements : List Element} (nonempty : elements ≠ []) (gaps : ∀ element ∈ elements, element.Gaps)
      (h : ∀ element ∈ elements, Verbatim element.text element.value) :
      Verbatim ('[' :: commaSeparated (elements.map Element.written) ++ [']'])
        (.array (elements.map Element.value))
  | emptyObject {gap : List Char} (h : IsGap gap) : Verbatim ('{' :: gap ++ ['}']) (.object [])
  | object {members : List Member} (nonempty : members ≠ []) (keyed : ∀ member ∈ members, member.Keyed)
      (gaps : ∀ member ∈ members, member.element.Gaps)
      (h : ∀ member ∈ members, Verbatim member.element.text member.element.value) :
      Verbatim ('{' :: commaSeparated (members.map Member.written) ++ ['}']) (.object (members.map Member.entry))

def SpelledOut (bytes : List UInt8) (value : Json) : Prop :=
  ∃ element : Element, element.Gaps ∧ Verbatim element.text element.value ∧
    bytes = Utf8.encode element.written ∧ value = element.value

mutual

/-- The value with the members of every object in it merged. -/
def settled : Json → Json
  | array elements => array (settledElements elements)
  | object members => object (Members.merged (settledMembers members))
  | value => value
termination_by structural value => value

def settledElements : List Json → List Json
  | [] => []
  | element :: rest => element.settled :: settledElements rest
termination_by structural elements => elements

def settledMembers : List (String × Json) → List (String × Json)
  | [] => []
  | member :: rest => (member.1, member.2.settled) :: settledMembers rest
termination_by structural members => members

end

/-- No object in the value has the tag as its first key. -/
def Untagged (value : Json) : Prop :=
  ∀ members : Members, (object members).Within value → members.keys.head? ≠ some Reader.tag

private theorem settledElements_eq_map (elements : List Json) : settledElements elements = elements.map settled := by
  induction elements with
  | nil => rfl
  | cons element elements ih => rw [settledElements, ih, List.map_cons]

private theorem settledMembers_eq_map (members : Members) : settledMembers members = members.map (Prod.map id settled) := by
  induction members with
  | nil => rfl
  | cons member members ih =>
    rw [settledMembers, ih, List.map_cons]
    rfl

/-- Settling merges repeated keys and leaves the others. -/
theorem keys_settledMembers (members : Members) :
    Members.keys (Members.merged (settledMembers members)) = members.keys.eraseDups := by
  rw [Members.keys_merged, settledMembers_eq_map, Members.keys, List.map_map]
  rfl

/-- What a value that is spelled out is read as. Repeated keys are merged, and an object that has the tag in front is a
number, or nothing at all. -/
inductive ReadAs : Json → Json → Prop
  | null : ReadAs .null .null
  | bool (truth : Bool) : ReadAs (.bool truth) (.bool truth)
  | number (text : String) : ReadAs (.number text) (.number text)
  | string (text : String) : ReadAs (.string text) (.string text)
  | array {elements : List Json} {read : Json → Json} (h : ∀ element ∈ elements, ReadAs element (read element)) :
      ReadAs (.array elements) (.array (elements.map read))
  | object {members : Members} {read : Json → Json} (untagged : members.keys.head? ≠ some Reader.tag)
      (h : ∀ member ∈ members, ReadAs member.2 (read member.2)) :
      ReadAs (.object members) (.object (Members.merged (members.map (Prod.map id read))))
  | tagged {content kept : List Char} (h : Numeral.Written content kept) :
      ReadAs (.object [(Reader.tag, .string (String.ofList content))]) (.number (String.ofList kept))

/-- An array of values that are read is read. -/
theorem exists_readAs_array {elements : List Json} (h : ∀ element ∈ elements, ∃ read, element.ReadAs read) :
    ∃ read, (array elements).ReadAs read :=
  ⟨_, @ReadAs.array elements (fun element => Classical.epsilon element.ReadAs) fun element he =>
    Classical.epsilon_spec (h element he)⟩

/-- An object of values that are read is read, if it has not the tag in front. -/
theorem exists_readAs_object {members : Members} (untagged : members.keys.head? ≠ some Reader.tag)
    (h : ∀ member ∈ members, ∃ read, member.2.ReadAs read) : ∃ read, (object members).ReadAs read :=
  ⟨_, @ReadAs.object members (fun value => Classical.epsilon value.ReadAs) untagged fun member hm =>
    Classical.epsilon_spec (h member hm)⟩

private theorem Untagged.element {elements : List Json} (h : (array elements).Untagged) {element : Json}
    (he : element ∈ elements) : element.Untagged := by
  intro members hm
  exact h members (.element he hm)

private theorem Untagged.field {members : Members} (h : (object members).Untagged) {member : String × Json}
    (hm : member ∈ members) : member.2.Untagged := by
  intro inner hi
  exact h inner (.field hm hi)

/-- Where no object has the tag in front, a value is read as it is settled. -/
theorem Untagged.readAs : {value : Json} → value.Untagged → value.ReadAs value.settled
  | .null, _ => .null
  | .bool truth, _ => .bool truth
  | .number text, _ => .number text
  | .string text, _ => .string text
  | .array elements, h => by
    rw [settled, settledElements_eq_map]
    exact .array fun element he => (h.element he).readAs
  | .object members, h => by
    rw [settled, settledMembers_eq_map]
    exact .object (h members .self) fun member hm => (h.field hm).readAs
decreasing_by
  · have hlt := List.sizeOf_lt_of_mem he
    simp only [array.sizeOf_spec]
    omega
  · have hlt := List.sizeOf_lt_of_mem hm
    obtain ⟨key, field⟩ := member
    simp only [object.sizeOf_spec, Prod.mk.sizeOf_spec] at hlt ⊢
    omega

private def Element.map (f : Json → Json) (element : Element) : Element := { element with value := f element.value }

private def Member.map (f : Json → Json) (member : Member) : Member := { member with element := member.element.map f }

private theorem written_mapElements {elements : List Element} {read : Json → Json} (nonempty : elements ≠ [])
    (gaps : ∀ element ∈ elements, element.Gaps) (h : ∀ element ∈ elements, Written element.text (read element.value)) :
    Written ('[' :: commaSeparated (elements.map Element.written) ++ [']'])
      (.array ((elements.map Element.value).map read)) := by
  have harray := @Written.array (elements.map (Element.map read)) (by simpa using nonempty)
    (List.forall_mem_map.2 gaps) (List.forall_mem_map.2 h)
  simp only [List.map_map] at harray ⊢
  exact harray

private theorem written_mapMembers {members : List Member} {read : Json → Json} (nonempty : members ≠ [])
    (untagged : (members.map Member.key).head? ≠ some Reader.tag) (keyed : ∀ member ∈ members, member.Keyed)
    (gaps : ∀ member ∈ members, member.element.Gaps)
    (h : ∀ member ∈ members, Written member.element.text (read member.element.value)) :
    Written ('{' :: commaSeparated (members.map Member.written) ++ ['}'])
      (.object (Members.merged ((members.map Member.entry).map (Prod.map id read)))) := by
  have hfirst : ((members.map (Member.map read)).map Member.key).head? ≠ some Reader.tag := by
    rw [List.map_map]
    exact untagged
  have hobject := @Written.object (members.map (Member.map read)) (by simpa using nonempty) hfirst
    (List.forall_mem_map.2 keyed) (List.forall_mem_map.2 gaps) (List.forall_mem_map.2 h)
  simp only [List.map_map] at hobject ⊢
  exact hobject

/-- What spells out a string is one of the grammar for it. -/
theorem Verbatim.quoted {text : List Char} {content : String} (h : Verbatim text (.string content)) :
    Quoted.Written text content.toList := by
  cases h with
  | string h => rwa [String.toList_ofList]

/-- A text that spells out a value is one of the grammar for what the value is read as. -/
theorem Verbatim.written {text : List Char} {value read : Json} (h : Verbatim text value) (hr : value.ReadAs read) :
    Written text read := by
  induction h generalizing read with
  | null =>
    cases hr
    exact .null
  | true =>
    cases hr
    exact .true
  | false =>
    cases hr
    exact .false
  | number h =>
    cases hr
    exact .number h
  | string h =>
    cases hr
    exact .string h
  | emptyArray h =>
    cases hr
    exact .emptyArray h
  | emptyObject h =>
    cases hr
    exact .emptyObject h
  | @array elements nonempty gaps _ ih =>
    cases hr with
    | array h => exact written_mapElements nonempty gaps fun element he => ih element he (h _ (List.mem_map_of_mem he))
  | @object members nonempty keyed gaps verbatim ih =>
    generalize he : members.map Member.entry = entries at hr
    cases hr with
    | object untagged h =>
      subst he
      rw [Members.keys, List.map_map] at untagged
      exact written_mapMembers nonempty untagged keyed gaps fun member hm => ih member hm (h _ (List.mem_map_of_mem hm))
    | @tagged content kept hn =>
      obtain ⟨member, rest, rfl, hm, hrest⟩ := List.map_eq_cons_iff.1 he
      obtain rfl := List.map_eq_nil_iff.1 hrest
      obtain ⟨ht, hv : member.element.value = .string (String.ofList content)⟩ := Prod.ext_iff.1 hm
      rw [List.forall_mem_singleton] at keyed gaps verbatim
      rw [hv] at verbatim
      have hq := verbatim.quoted
      rw [String.toList_ofList] at hq
      rw [List.map_singleton, commaSeparated_singleton]
      exact .tagged ht keyed gaps hq hn

end TypeSketch.Json
