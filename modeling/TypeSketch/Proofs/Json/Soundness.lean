import TypeSketch.Example
import TypeSketch.Proofs.Json.Completeness

/-! What is read without a refusal is what the grammar derives. The invariant says, for each place of the reader,
how the bytes up to it can be written; every step keeps it, and at the end of the text it is a derivation. -/
namespace TypeSketch.Reader
open Json

private def commaEnded (parts : List (List Char)) : List Char := parts.flatMap (· ++ [','])

private theorem commaSeparated_snoc (parts : List (List Char)) (last : List Char) :
    commaSeparated (parts ++ [last]) = commaEnded parts ++ last := by
  induction parts with
  | nil => simp [commaSeparated, commaEnded]
  | cons part parts ih =>
    rw [List.cons_append, commaSeparated_cons _ (by simp), ih]
    simp [commaEnded]

def InArray (text : List Char) (values : List Json) : Prop :=
  ∃ elements : List Element, (∀ element ∈ elements, element.Gaps) ∧
    (∀ element ∈ elements, Written element.text element.value) ∧
    text = '[' :: commaEnded (elements.map Element.written) ∧ values = elements.map Element.value

def InObject (text : List Char) (before : Members) : Prop :=
  ∃ members : List Member, (∀ member ∈ members, member.Keyed) ∧ (∀ member ∈ members, member.element.Gaps) ∧
    (∀ member ∈ members, Written member.element.text member.element.value) ∧
    (members.map Member.key).head? ≠ some tag ∧
    text = '{' :: commaEnded (members.map Member.written) ∧
    before = Members.merged (members.map Member.entry)

def KeyText (text : List Char) (key : String) : Prop :=
  ∃ before quoted after, IsGap before ∧ Quoted.Written quoted key.toList ∧ IsGap after ∧
    text = before ++ quoted ++ after

/-- What leads up to a value in these frames, the gap before it included. -/
inductive Opens : List Frame → List Char → Prop
  | outermost {gap : List Char} (hg : IsGap gap) : Opens [] gap
  | element {outer : List Frame} {front text gap : List Char} {before : List Json} (ho : Opens outer front)
      (hu : Untagged outer) (ha : InArray text before.reverse) (hg : IsGap gap) :
      Opens (.element before :: outer) (front ++ text ++ gap)
  | member {outer : List Frame} {front text keyText gap : List Char} {before : Members} {key : String}
      (ho : Opens outer front) (hu : Untagged outer) (hm : InObject text before) (hk : KeyText keyText key)
      (hn : before = [] → key ≠ tag) (hg : IsGap gap) :
      Opens (.member before key :: outer) (front ++ text ++ keyText ++ ':' :: gap)
  | tagged {outer : List Frame} {front keyText gap : List Char} (ho : Opens outer front) (hu : Untagged outer)
      (hk : KeyText keyText tag) (hg : IsGap gap) :
      Opens (.tagged :: outer) (front ++ '{' :: keyText ++ ':' :: gap)

/-- What the bytes up to a place of the reader are. -/
inductive Consumed : Reader → List UInt8 → Prop
  | value {frames : List Frame} {front : List Char} (ho : Opens frames front) :
      Consumed ⟨frames, .value⟩ (Utf8.encode front)
  | firstElement {frames : List Frame} {front gap : List Char} (ho : Opens frames front) (hu : Untagged frames)
      (hg : IsGap gap) : Consumed ⟨frames, .firstElement⟩ (Utf8.encode (front ++ '[' :: gap))
  | firstKey {frames : List Frame} {front gap : List Char} (ho : Opens frames front) (hu : Untagged frames)
      (hg : IsGap gap) : Consumed ⟨frames, .firstKey⟩ (Utf8.encode (front ++ '{' :: gap))
  | nextKey {frames : List Frame} {front text gap : List Char} {before : Members} (ho : Opens frames front)
      (hu : Untagged frames) (hm : InObject text before) (hg : IsGap gap) :
      Consumed ⟨frames, .nextKey before⟩ (Utf8.encode (front ++ text ++ gap))
  | colon {frames : List Frame} {front text keyText : List Char} {before : Members} {key : String}
      (ho : Opens frames front) (hu : Untagged frames) (hm : InObject text before) (hk : KeyText keyText key) :
      Consumed ⟨frames, .colon before key⟩ (Utf8.encode (front ++ text ++ keyText))
  | word {frames : List Frame} {front read letters : List Char} {letter : Char} {value : Json}
      (ho : Opens frames front) (ha : ∀ c ∈ letter :: letters, c.toNat < 0x80)
      (hw : Written (read ++ letter :: letters) value) :
      Consumed ⟨frames, .word letter letters value⟩ (Utf8.encode (front ++ read))
  | numeral {frames : List Frame} {front read : List Char} {stage : Numeral.Stage} (ho : Opens frames front)
      (hr : Numeral.Reached stage read.reverse) :
      Consumed ⟨frames, .numeral stage read⟩ (Utf8.encode (front ++ read.reverse))
  | quotedValue {frames : List Frame} {front : List Char} {bytes : List UInt8} {text : Quoted}
      (ho : Opens frames front) (hq : Quoted.Holds bytes text) :
      Consumed ⟨frames, .quoted .value text⟩ (Utf8.encode (front ++ ['"']) ++ bytes)
  | quotedKey {frames : List Frame} {front object gap : List Char} {before : Members} {bytes : List UInt8}
      {text : Quoted} (ho : Opens frames front) (hu : Untagged frames) (hm : InObject object before)
      (hg : IsGap gap) (hq : Quoted.Holds bytes text) :
      Consumed ⟨frames, .quoted (.key before) text⟩ (Utf8.encode (front ++ object ++ gap ++ ['"']) ++ bytes)
  | closeTagged {frames : List Frame} {front text gap : List Char} {value : Json} (ho : Opens frames front)
      (hu : Untagged frames) (hw : ∀ {gap}, IsGap gap → Written (text ++ gap ++ ['}']) value) (hg : IsGap gap) :
      Consumed ⟨frames, .closeTagged value⟩ (Utf8.encode (front ++ text ++ gap))
  | behind {frames : List Frame} {front text gap : List Char} {value : Json} (ho : Opens frames front)
      (hu : Untagged frames) (hw : Written text value) (hg : IsGap gap) :
      Consumed ⟨frames, .behind value⟩ (Utf8.encode (front ++ text ++ gap))

/-- At the start nothing has been read. -/
theorem consumed_start : Consumed start [] := @Consumed.value _ [] (.outermost isGap_nil)

private theorem gap_snoc {gap : List Char} (hg : IsGap gap) {c : Char} (hs : isSpace c) : IsGap (gap ++ [c]) := by
  intro x hx
  rcases List.mem_append.1 hx with hx | hx
  · exact hg x hx
  · rw [List.mem_singleton.1 hx]
    exact isSpace_iff.1 hs

private theorem Opens.space {frames : List Frame} {front : List Char} (ho : Opens frames front) {c : Char}
    (hs : isSpace c) : Opens frames (front ++ [c]) := by
  cases ho with
  | outermost hg => exact .outermost (gap_snoc hg hs)
  | element ho hu ha hg => simpa using Opens.element ho hu ha (gap_snoc hg hs)
  | member ho hu hm hk hn hg => simpa using Opens.member ho hu hm hk hn (gap_snoc hg hs)
  | tagged ho hu hk hg => simpa using Opens.tagged ho hu hk (gap_snoc hg hs)

private theorem KeyText.space {text : List Char} {key : String} (hk : KeyText text key) {c : Char} (hs : isSpace c) :
    KeyText (text ++ [c]) key := by
  obtain ⟨before, quoted, after, hb, hq, ha, rfl⟩ := hk
  exact ⟨before, quoted, after ++ [c], hb, hq, gap_snoc ha hs, by simp⟩

private theorem encode_snoc {byte : UInt8} {c : Char} (hb : Char.ofUInt8 byte = c) (hc : c.toNat < 0x80)
    (front : List Char) : Utf8.encode front ++ [byte] = Utf8.encode (front ++ [c]) := by
  rw [Utf8.encode_append, ← hb, Utf8.encode_ofUInt8]
  rw [← hb] at hc
  exact hc

private theorem Consumed.space {reader : Reader} {bytes : List UInt8} (h : Consumed reader bytes)
    (hp : reader.place.Skips) {byte : UInt8} (hs : isSpace (Char.ofUInt8 byte)) :
    Consumed reader (bytes ++ [byte]) := by
  have hc := ascii_of_isSpace hs
  cases h with
  | word _ _ _ | numeral _ _ | quotedValue _ _ | quotedKey _ _ _ _ _ => cases hp
  | value ho =>
    rw [encode_snoc rfl hc]
    exact .value (ho.space hs)
  | firstElement ho hu hg =>
    rw [encode_snoc rfl hc]
    simpa using Consumed.firstElement ho hu (gap_snoc hg hs)
  | firstKey ho hu hg =>
    rw [encode_snoc rfl hc]
    simpa using Consumed.firstKey ho hu (gap_snoc hg hs)
  | nextKey ho hu hm hg =>
    rw [encode_snoc rfl hc]
    simpa using Consumed.nextKey ho hu hm (gap_snoc hg hs)
  | colon ho hu hm hk =>
    rw [encode_snoc rfl hc]
    simpa using Consumed.colon ho hu hm (hk.space hs)
  | closeTagged ho hu hw hg =>
    rw [encode_snoc rfl hc]
    simpa using Consumed.closeTagged ho hu hw (gap_snoc hg hs)
  | behind ho hu hw hg =>
    rw [encode_snoc rfl hc]
    simpa using Consumed.behind ho hu hw (gap_snoc hg hs)

private theorem untagged_or_tagged (frames : List Frame) : Untagged frames ∨ ∃ outer, frames = .tagged :: outer := by
  match frames with
  | [] | .element _ :: _ | .member _ _ :: _ => exact .inl trivial
  | .tagged :: outer => exact .inr ⟨outer, rfl⟩

private theorem untagged_of_openValue {frames : List Frame} {place : Place} {next : Reader}
    (h : openValue frames place = .ok next) : Untagged frames ∧ next = ⟨frames, place⟩ := by
  rcases untagged_or_tagged frames with hu | ⟨outer, rfl⟩
  · rw [openValue_untagged hu] at h
    exact ⟨hu, (Except.ok.inj h).symm⟩
  · cases h

private theorem untagged_of_complete {frames : List Frame} {value : Json} {counted : Bool} {next : Reader}
    (h : complete frames value counted = .ok next) : Untagged frames ∧ next = ⟨frames, .behind value⟩ := by
  rcases untagged_or_tagged frames with hu | ⟨outer, rfl⟩
  · rw [complete_untagged hu] at h
    exact ⟨hu, (Except.ok.inj h).symm⟩
  · cases h

private theorem consumed_beginValue {frames : List Frame} {front : List Char} (ho : Opens frames front) {byte : UInt8}
    {next : Reader} (h : beginValue frames (Char.ofUInt8 byte) = .ok next) :
    Consumed next (Utf8.encode front ++ [byte]) := by
  unfold beginValue at h
  split at h
  case h_1 hb =>
    cases h
    rw [encode_snoc hb (by decide)]
    simpa using Consumed.quotedValue ho Quoted.holds_opened
  case h_2 hb =>
    cases h
    rw [encode_snoc hb (by decide)]
    exact .word ho (by simp) .null
  case h_3 hb =>
    cases h
    rw [encode_snoc hb (by decide)]
    exact .word ho (by simp) .true
  case h_4 hb =>
    cases h
    rw [encode_snoc hb (by decide)]
    exact .word ho (by simp) .false
  case h_5 hb =>
    obtain ⟨hu, rfl⟩ := untagged_of_openValue h
    rw [encode_snoc hb (by decide)]
    exact .firstElement ho hu isGap_nil
  case h_6 hb =>
    obtain ⟨hu, rfl⟩ := untagged_of_openValue h
    rw [encode_snoc hb (by decide)]
    exact .firstKey ho hu isGap_nil
  case h_7 =>
    split at h
    · rename_i stage hs
      cases h
      rw [encode_snoc rfl (Numeral.ascii_of_start? hs)]
      exact .numeral ho (Numeral.reached_start hs)
    · cases h

private theorem commaEnded_snoc (parts : List (List Char)) (last : List Char) :
    commaEnded (parts ++ [last]) = commaEnded parts ++ last ++ [','] := by
  simp [commaEnded]

private theorem forall_mem_snoc {α : Type} {p : α → Prop} {front : List α} {last : α} (h : ∀ x ∈ front, p x)
    (hl : p last) : ∀ x ∈ front ++ [last], p x :=
  List.forall_mem_append.2 ⟨h, List.forall_mem_singleton.2 hl⟩

private theorem InArray.comma {text : List Char} {values : List Json} (ha : InArray text values) {element : Element}
    (hg : element.Gaps) (hw : Written element.text element.value) :
    InArray (text ++ element.written ++ [',']) (values ++ [element.value]) := by
  obtain ⟨elements, gaps, h, rfl, rfl⟩ := ha
  refine ⟨elements ++ [element], forall_mem_snoc gaps hg, forall_mem_snoc h hw, ?_, by simp⟩
  rw [List.map_append, List.map_singleton, commaEnded_snoc]
  simp

private theorem InArray.close {text : List Char} {values : List Json} (ha : InArray text values) {element : Element}
    (hg : element.Gaps) (hw : Written element.text element.value) :
    Written (text ++ element.written ++ [']']) (.array (values ++ [element.value])) := by
  obtain ⟨elements, gaps, h, rfl, rfl⟩ := ha
  have harray := Written.array (by simp) (forall_mem_snoc gaps hg) (forall_mem_snoc h hw)
  rw [List.map_append, List.map_singleton, commaSeparated_snoc] at harray
  simpa using harray

private theorem head?_snoc {members : List Member} (ht : (members.map Member.key).head? ≠ some tag) {member : Member}
    (hn : Members.merged (members.map Member.entry) = [] → member.key ≠ tag) :
    ((members ++ [member]).map Member.key).head? ≠ some tag := by
  cases members with
  | nil => simpa using hn rfl
  | cons first members => simpa using ht

private theorem InObject.comma {text : List Char} {before : Members} (hm : InObject text before) {member : Member}
    (hn : before = [] → member.key ≠ tag) (hk : member.Keyed) (hg : member.element.Gaps)
    (hw : Written member.element.text member.element.value) :
    InObject (text ++ member.written ++ [',']) (before.put member.key member.element.value) := by
  obtain ⟨members, keyed, gaps, h, ht, rfl, rfl⟩ := hm
  refine ⟨members ++ [member], forall_mem_snoc keyed hk, forall_mem_snoc gaps hg, forall_mem_snoc h hw,
    head?_snoc ht hn, ?_, ?_⟩
  · rw [List.map_append, List.map_singleton, commaEnded_snoc]
    simp
  · rw [List.map_append, List.map_singleton]
    exact (Members.merged_append _ _ _).symm

private theorem InObject.close {text : List Char} {before : Members} (hm : InObject text before) {member : Member}
    (hn : before = [] → member.key ≠ tag) (hk : member.Keyed) (hg : member.element.Gaps)
    (hw : Written member.element.text member.element.value) :
    Written (text ++ member.written ++ ['}']) (.object (before.put member.key member.element.value)) := by
  obtain ⟨members, keyed, gaps, h, ht, rfl, rfl⟩ := hm
  have hobject := Written.object (by simp) (head?_snoc ht hn) (forall_mem_snoc keyed hk) (forall_mem_snoc gaps hg)
    (forall_mem_snoc h hw)
  rw [List.map_append, List.map_append, List.map_singleton, List.map_singleton, commaSeparated_snoc] at hobject
  rw [← Members.merged_append]
  simpa [Member.entry] using hobject

private theorem consumed_continueBehind {frames : List Frame} {front text gap : List Char} {value : Json}
    (ho : Opens frames front) (hw : Written text value) (hg : IsGap gap) {byte : UInt8} {next : Reader}
    (h : continueBehind value frames (Char.ofUInt8 byte) = .ok next) :
    Consumed next (Utf8.encode (front ++ text ++ gap) ++ [byte]) := by
  cases ho with
  | outermost _ | tagged _ _ _ _ => cases h
  | @element outer front open_ before' before ho hu ha hb =>
    have hgaps : Element.Gaps ⟨before', text, gap, value⟩ := ⟨hb, hg⟩
    simp only [continueBehind] at h
    split at h
    · rename_i hc
      cases h
      rw [encode_snoc hc (by decide)]
      have hcomma := ha.comma hgaps hw
      rw [← List.reverse_cons] at hcomma
      have hopens := Opens.element ho hu hcomma isGap_nil
      simpa [Element.written] using Consumed.value hopens
    split at h
    · rename_i hc
      cases h
      rw [encode_snoc hc (by decide)]
      have hclose := ha.close hgaps hw
      rw [← List.reverse_cons] at hclose
      simpa [Element.written] using Consumed.behind ho hu hclose isGap_nil
    · cases h
  | @member outer front open_ keyText before' before key ho hu hm hk hn hb =>
    obtain ⟨beforeKey, quoted, afterKey, hkb, hkq, hka, rfl⟩ := hk
    have hgaps : Element.Gaps ⟨before', text, gap, value⟩ := ⟨hb, hg⟩
    have hkeyed : Member.Keyed ⟨beforeKey, quoted, afterKey, key, before', text, gap, value⟩ := ⟨hkb, hkq, hka⟩
    simp only [continueBehind] at h
    split at h
    · rename_i hc
      cases h
      rw [encode_snoc hc (by decide)]
      have hcomma := hm.comma hn hkeyed hgaps hw
      simpa [Member.written, Element.written] using Consumed.nextKey ho hu hcomma isGap_nil
    split at h
    · rename_i hc
      cases h
      rw [encode_snoc hc (by decide)]
      have hclose := hm.close hn hkeyed hgaps hw
      simpa [Member.written, Element.written] using Consumed.behind ho hu hclose isGap_nil
    · cases h

/-- The content of a tagged numeral is a numeral of the grammar. -/
theorem numeral_of_fault? {content : List Char}
    (h : Numeral.fault? ((Utf8.encode content).map Char.ofUInt8) = none) : ∃ kept, Numeral.Written content kept := by
  obtain ⟨kept, hw⟩ := Numeral.fault?_eq_none_iff_written.1 h
  have hc := Utf8.encode_injective (Utf8.encode_map_ofUInt8 hw.ascii)
  rw [hc] at hw
  exact ⟨kept, hw⟩

private theorem number_of_written {text kept : List Char} (h : Numeral.Written text kept) :
    number text = .number (String.ofList kept) := by rw [number, h.stored]

private theorem consumed_closesValue {frames : List Frame} {front written content : List Char}
    (ho : Opens frames front) (hi : Quoted.Inside written content) {next : Reader}
    (h : completeQuoted frames .value (Utf8.encode content) = .ok next) :
    Consumed next (Utf8.encode (front ++ ('"' :: written ++ ['"']))) := by
  have hw : Quoted.Written ('"' :: written ++ ['"']) content := .mk hi
  rcases untagged_or_tagged frames with hu | ⟨outer, rfl⟩
  · rw [completeQuoted_value hu] at h
    cases h
    simpa using Consumed.behind ho hu (.string hw) isGap_nil
  · cases ho with
    | @tagged _ front keyText before' ho hu hk hb =>
      rw [completeQuoted, Utf8.decode_encode] at h
      simp only at h
      split at h
      · rename_i hf
        cases h
        obtain ⟨kept, hn⟩ := numeral_of_fault? hf
        obtain ⟨beforeKey, quoted, afterKey, hkb, hkq, hka, rfl⟩ := hk
        rw [number_of_written hn]
        have hclose {gap : List Char} (hg : IsGap gap) :
            Written ('{' :: (beforeKey ++ quoted ++ afterKey) ++ ':' :: before' ++
              ('"' :: written ++ ['"']) ++ gap ++ ['}'])
              (.number (String.ofList kept)) := by
          have htagged := @Written.tagged ⟨beforeKey, quoted, afterKey, tag, before', _, gap, .null⟩ _ _ rfl
            ⟨hkb, hkq, hka⟩ ⟨hb, hg⟩ hw hn
          simpa [Member.written, Element.written] using htagged
        simpa using Consumed.closeTagged ho hu hclose isGap_nil
      · cases h

private theorem consumed_closes {frames : List Frame} {use : Use} {text : Quoted} {bytes : List UInt8}
    (h : Consumed ⟨frames, .quoted use text⟩ bytes) {byte : UInt8} {closed : List UInt8}
    (hc : text.next byte = .closes closed) {next : Reader} (hn : completeQuoted frames use closed = .ok next) :
    Consumed next (bytes ++ [byte]) := by
  obtain ⟨content, hd⟩ : ∃ content, Utf8.decode closed = (content, []) := by
    unfold completeQuoted at hn
    split at hn
    · rename_i content hd
      exact ⟨content, hd⟩
    · cases hn
  cases Utf8.decode_eq_iff.1 hd
  cases h with
  | quotedValue ho hq =>
    obtain ⟨written, he, hi⟩ := hq.close hc hd
    rw [List.append_assoc, he, ← Utf8.encode_append]
    simpa using consumed_closesValue ho hi hn
  | quotedKey ho hu hm hg hq =>
    obtain ⟨written, he, hi⟩ := hq.close hc hd
    rw [completeQuoted_key] at hn
    cases hn
    have hk : KeyText _ (String.ofList content) :=
      ⟨_, '"' :: written ++ ['"'], [], hg, by rw [String.toList_ofList]; exact .mk hi, isGap_nil, rfl⟩
    rw [List.append_assoc, he, ← Utf8.encode_append]
    simpa using Consumed.colon ho hu hm hk

private theorem isComplete_of_ends {stage : Numeral.Stage} {c : Char} (h : stage.next c = .ends) :
    stage.isComplete := by
  cases stage with
  | zero | whole | fraction | power => rfl
  | minus | point | mark | sign =>
    simp only [Numeral.Stage.next] at h
    repeat' split at h
    all_goals cases h

private theorem consumed_ends {frames : List Frame} {front read : List Char} {stage : Numeral.Stage}
    (ho : Opens frames front) (hr : Numeral.Reached stage read.reverse) {byte : UInt8}
    (hc : stage.next (Char.ofUInt8 byte) = .ends) {next : Reader}
    (hn : (complete frames (number read.reverse) false).bind (fun behind => behind.afterSpace (Char.ofUInt8 byte)
      (continueBehind (number read.reverse) frames (Char.ofUInt8 byte))) = .ok next) :
    Consumed next (Utf8.encode (front ++ read.reverse) ++ [byte]) := by
  obtain ⟨kept, hw⟩ := hr.written (isComplete_of_ends hc)
  rcases untagged_or_tagged frames with hu | ⟨outer, rfl⟩
  · rw [complete_untagged hu, number_of_written hw] at hn
    simp only [Except.bind, afterSpace] at hn
    split at hn
    · rename_i hs
      cases hn
      have hbehind := Consumed.behind ho hu (.number hw) isGap_nil
      simpa using hbehind.space trivial hs
    · simpa using consumed_continueBehind ho (.number hw) isGap_nil hn
  · cases hn

private theorem inArray_nil : InArray ['['] [] := ⟨[], by simp, by simp, rfl, rfl⟩

private theorem inObject_nil : InObject ['{'] [] := ⟨[], by simp, by simp, by simp, by simp, rfl, rfl⟩

private theorem InObject.eq_nil {text : List Char} (hm : InObject text []) : text = ['{'] := by
  obtain ⟨members, -, -, -, -, rfl, hn⟩ := hm
  cases members with
  | nil => rfl
  | cons member members => exact absurd hn.symm (Members.merged_ne_nil (by simp))

private theorem consumed_colon {frames : List Frame} {front text keyText : List Char} {before : Members} {key : String}
    (ho : Opens frames front) (hu : Untagged frames) (hm : InObject text before) (hk : KeyText keyText key) :
    Consumed ⟨(if before.isEmpty && key = tag then .tagged else .member before key) :: frames, .value⟩
      (Utf8.encode (front ++ text ++ keyText ++ [':'])) := by
  split
  · rename_i ht
    simp only [List.isEmpty_iff, Bool.and_eq_true, decide_eq_true_eq] at ht
    obtain ⟨rfl, rfl⟩ := ht
    cases hm.eq_nil
    simpa using Consumed.value (.tagged ho hu hk isGap_nil)
  · rename_i ht
    simp only [List.isEmpty_iff, Bool.and_eq_true, decide_eq_true_eq, not_and] at ht
    exact .value (.member ho hu hm hk ht isGap_nil)

/-- One byte that is read keeps the text one of the grammar, up to the next place. -/
theorem Consumed.step {reader next : Reader} {bytes : List UInt8} (h : Consumed reader bytes) {byte : UInt8}
    (hn : reader.step byte = .ok next) : Consumed next (bytes ++ [byte]) := by
  -- space only widens a gap, so from there on the place alone decides
  by_cases hs : reader.place.Skips ∧ isSpace (Char.ofUInt8 byte)
  · rw [step_space hs.1 hs.2] at hn
    cases hn
    exact h.space hs.1 hs.2
  have hskips (hp : reader.place.Skips) (read : Except Refusal Reader) :
      reader.afterSpace (Char.ofUInt8 byte) read = read := if_neg fun hc => hs ⟨hp, hc⟩
  cases h with
  | value ho =>
    simp only [Reader.step, hskips trivial] at hn
    exact consumed_beginValue ho hn
  | firstElement ho hu hg =>
    simp only [Reader.step, hskips trivial] at hn
    split at hn
    · rename_i hc
      cases hn
      rw [encode_snoc hc (by decide)]
      simpa using Consumed.behind ho hu (.emptyArray hg) isGap_nil
    · simpa using consumed_beginValue (.element ho hu inArray_nil hg) hn
  | firstKey ho hu hg =>
    simp only [Reader.step, hskips trivial] at hn
    split at hn
    · rename_i hc
      cases hn
      rw [encode_snoc hc (by decide)]
      simpa using Consumed.behind ho hu (.emptyObject hg) isGap_nil
    split at hn
    · rename_i hc
      cases hn
      rw [encode_snoc hc (by decide)]
      simpa using Consumed.quotedKey ho hu inObject_nil hg Quoted.holds_opened
    · cases hn
  | nextKey ho hu hm hg =>
    simp only [Reader.step, hskips trivial] at hn
    split at hn
    · rename_i hc
      cases hn
      rw [encode_snoc hc (by decide)]
      simpa using Consumed.quotedKey ho hu hm hg Quoted.holds_opened
    · cases hn
  | colon ho hu hm hk =>
    simp only [Reader.step, hskips trivial] at hn
    split at hn
    · rename_i hc
      cases hn
      rw [encode_snoc hc (by decide)]
      exact consumed_colon ho hu hm hk
    · cases hn
  | @word frames front read letters letter value ho ha hw =>
    simp only [Reader.step] at hn
    split at hn
    · cases hn
    · rename_i hc
      rw [List.forall_mem_cons] at ha
      rw [encode_snoc (Decidable.not_not.1 hc) ha.1]
      cases letters with
      | nil =>
        obtain ⟨hu, rfl⟩ := untagged_of_complete hn
        simpa using Consumed.behind ho hu hw isGap_nil
      | cons second letters =>
        cases hn
        rw [List.append_assoc]
        exact .word ho ha.2 (by simpa using hw)
  | @numeral frames front read stage ho hr =>
    simp only [Reader.step] at hn
    split at hn
    · rename_i more hc
      cases hn
      rw [encode_snoc rfl (Numeral.ascii_of_next hc)]
      have hmore : Numeral.Reached more (Char.ofUInt8 byte :: read).reverse := by simpa using hr.step hc
      simpa using Consumed.numeral ho hmore
    · cases hn
    · rename_i hc
      exact consumed_ends ho hr hc hn
  | quotedValue ho hq =>
    simp only [Reader.step] at hn
    split at hn
    · rename_i text hc
      cases hn
      rw [List.append_assoc]
      exact .quotedValue ho (hq.step hc)
    · rename_i closed hc
      exact consumed_closes (.quotedValue ho hq) hc hn
    · cases hn
  | quotedKey ho hu hm hg hq =>
    simp only [Reader.step] at hn
    split at hn
    · rename_i text hc
      cases hn
      rw [List.append_assoc]
      exact .quotedKey ho hu hm hg (hq.step hc)
    · rename_i closed hc
      exact consumed_closes (.quotedKey ho hu hm hg hq) hc hn
    · cases hn
  | closeTagged ho hu hw hg =>
    simp only [Reader.step, hskips trivial] at hn
    split at hn
    · rename_i hc
      cases hn
      rw [encode_snoc hc (by decide)]
      simpa using Consumed.behind ho hu (hw hg) isGap_nil
    · cases hn
  | behind ho hu hw hg =>
    simp only [Reader.step, hskips trivial] at hn
    exact consumed_continueBehind ho hw hg hn

/-- A run keeps what a step keeps. -/
theorem Consumed.feed {reader next : Reader} {bytes : List UInt8} (h : Consumed reader bytes) {text : List UInt8}
    (hn : reader.feed text = .ok next) : Consumed next (bytes ++ text) := by
  induction text generalizing reader bytes with
  | nil =>
    cases hn
    simpa using h
  | cons byte text ih =>
    simp only [Reader.feed] at hn
    split at hn
    · rename_i behind hs
      simpa using ih (h.step hs) hn
    · cases hn

/-- A text that may end where it ends is one of the grammar. -/
theorem Consumed.finish {reader : Reader} {bytes : List UInt8} (h : Consumed reader bytes) {value : Json}
    (hf : reader.finish = .ok value) : Denoted bytes value := by
  obtain ⟨frames, place⟩ := reader
  unfold Reader.finish at hf
  split at hf
  · rename_i he
    cases he
    cases hf
    cases h with
    | behind ho hu hw hg =>
      cases ho with
      | outermost hb => exact ⟨_, rfl, ⟨_, _, _, value⟩, ⟨hb, hg⟩, hw, rfl, rfl⟩
  · rename_i he
    cases he
    split at hf
    · rename_i hc
      split at hf
      · cases hf
        cases h with
        | numeral ho hr =>
          obtain ⟨kept, hw⟩ := hr.written hc
          rw [number_of_written hw]
          cases ho with
          | outermost hb =>
            exact ⟨_, rfl, ⟨_, _, [], _⟩, ⟨hb, isGap_nil⟩, .number hw, by simp [Element.written], rfl⟩
      · cases hf
      · cases hf
    · cases hf
  · cases hf

end TypeSketch.Reader

namespace TypeSketch.Json

/-- The reader reads exactly what the grammar denotes. -/
theorem read_eq_ok_iff {bytes : List UInt8} {value : Json} : read bytes = .ok value ↔ Denoted bytes value := by
  refine ⟨fun h => ?_, read_of_denoted⟩
  unfold read at h
  cases hf : Reader.start.feed bytes with
  | error fault =>
    rw [hf] at h
    cases h
  | ok reader =>
    rw [hf] at h
    exact (Reader.consumed_start.feed hf).finish h

/-- The grammar denotes one value at most. -/
theorem Denoted.unique {bytes : List UInt8} {value other : Json} (hv : Denoted bytes value)
    (ho : Denoted bytes other) : value = other := by
  rw [← read_eq_ok_iff] at hv ho
  rw [hv] at ho
  exact Except.ok.inj ho

end TypeSketch.Json

namespace TypeSketch.Example
open Json

/-- What a text that is read stands for is its value, and nothing is told. -/
theorem ofText_eq_pure_iff {bytes : List UInt8} {value : Json} :
    ofText bytes = ⟨value, []⟩ ↔ read bytes = .ok value := by
  cases h : read bytes with
  | ok value => simp [ofText_of_ok h]
  | error fault => simp [ofText_of_error h]

/-- A text stands for a value and tells nothing exactly if the grammar derives the value from it; a text that
is no JSON stands for the empty object, and one event of the debug level tells so. -/
theorem ofText_denotes (bytes : List UInt8) :
    (∀ value, ofText bytes = ⟨value, []⟩ ↔ Denoted bytes value) ∧
      ((∀ value, ¬ Denoted bytes value) →
        ∃ event, event.level = .debug ∧ ofText bytes = ⟨.object [], [event]⟩) := by
  refine ⟨fun value => ofText_eq_pure_iff.trans read_eq_ok_iff, fun hn => ?_⟩
  cases h : read bytes with
  | ok value => exact absurd (read_eq_ok_iff.1 h) (hn value)
  | error fault => exact ⟨.replaced fault.category (fault.position bytes), rfl, by simp [ofText, h, Logged.tell]⟩

/-- The brace alone: no value, and so one event. -/
theorem ofText_denotes_brace : (∀ value, ¬ Denoted [123] value) ∧
    ∃ event, event.level = .debug ∧ ofText [123] = ⟨.object [], [event]⟩ := by
  have hn (value : Json) : ¬ Denoted [123] value := by
    rw [← read_eq_ok_iff]
    intro h
    cases h
  exact ⟨hn, (ofText_denotes [123]).2 hn⟩

end TypeSketch.Example
