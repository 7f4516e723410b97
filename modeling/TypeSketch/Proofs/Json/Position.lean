import Mathlib.Data.List.DropRight
import Mathlib.Order.Bounds.Defs
import TypeSketch.Proofs.Json.Quoted
import TypeSketch.Proofs.Json.Stability

/-! Where a refused text is reported. However a byte came to be refused, it is reported just behind itself, and that
is where what stands in front first is malformed on its own; an incomplete text is reported at its end. Only the
quote that closes an ill-formed content is reported further back in its line. -/
namespace TypeSketch

/-- The index just behind the last line feed of a text, or zero if it has none. -/
def lineStart (text : List UInt8) : Nat := (text.rdropWhile (· ≠ 10)).length

namespace Position

def ofIndex (text : List UInt8) (index : Nat) : Position :=
  ⟨1 + (text.take index).count 10, index - lineStart (text.take index)⟩

private theorem lineStart_snoc (text : List UInt8) (byte : UInt8) :
    lineStart (text ++ [byte]) = if byte = 10 then text.length + 1 else lineStart text := by
  rw [lineStart, List.rdropWhile_concat]
  by_cases h : byte = 10 <;> simp [h, lineStart]

private theorem lineStart_le (text : List UInt8) : lineStart text ≤ text.length :=
  (List.rdropWhile_prefix _ text).length_le

/-- Walking over a text counts its line feeds, and the bytes behind the last one. -/
theorem after_eq (text : List UInt8) : after text = ⟨1 + text.count 10, text.length - lineStart text⟩ := by
  induction text using List.reverseRecOn with
  | nil => rfl
  | append_singleton text byte ih =>
    rw [after_append, ih, lineStart_snoc, List.count_append, List.length_append, List.foldl_cons, List.foldl_nil,
      advance]
    have hle := lineStart_le text
    by_cases h : byte = 10
    · simp [h, Nat.add_assoc]
    · simp [h]
      omega

private theorem after_take {text : List UInt8} {index : Nat} (h : index ≤ text.length) :
    after (text.take index) = ofIndex text index := by
  rw [after_eq, ofIndex, List.length_take_of_le h]

end Position

namespace Reader

private theorem feed_snoc {reader next : Reader} {text : List UInt8} {byte : UInt8}
    (h : reader.feed (text ++ [byte]) = .ok next) :
    ∃ behind, reader.feed text = .ok behind ∧ behind.step byte = .ok next := by
  rw [feed_append] at h
  cases hb : reader.feed text with
  | error fault =>
    rw [hb] at h
    cases h
  | ok behind =>
    rw [hb] at h
    cases hs : behind.step byte with
    | error refusal => simp [feed, hs] at h
    | ok last => exact ⟨behind, rfl, by simpa [feed, hs] using h⟩

private theorem feed_error {reader : Reader} {text : List UInt8} {fault : Fault} (h : reader.feed text = .error fault) :
    ∃ front byte rest behind refusal, text = front ++ byte :: rest ∧ reader.feed front = .ok behind ∧
      behind.step byte = .error refusal ∧
      fault = ⟨refusal.cause, if refusal.counted then rest else byte :: rest⟩ := by
  induction text generalizing reader with
  | nil => cases h
  | cons byte rest ih =>
    simp only [feed] at h
    cases hs : reader.step byte with
    | error refusal =>
      rw [hs] at h
      cases h
      exact ⟨[], byte, rest, reader, refusal, rfl, rfl, hs, rfl⟩
    | ok next =>
      rw [hs] at h
      obtain ⟨front, last, back, behind, refusal, rfl, hf, he, rfl⟩ := ih h
      exact ⟨byte :: front, last, back, behind, refusal, rfl, by simp only [feed, hs, hf], he, rfl⟩

/-- What a byte can do outside a quoted text: it leads to a place outside or opens a quoted text, or it is refused as
one that cannot come here, or because a tagged numeral is not quoted. -/
private def Outside (byte : UInt8) : Except Refusal Reader → Prop
  | .ok next => ∀ use text, next.place = .quoted use text → byte = 34 ∧ text = .opened
  | .error refusal => refusal = ⟨.unexpected, true⟩ ∨ refusal.cause = .notQuoted

private theorem outside_refuse (byte : UInt8) : Outside byte refuse := .inl rfl

private theorem outside_opened {byte : UInt8} (h : Char.ofUInt8 byte = '"') (frames : List Frame) (use : Use) :
    Outside byte (.ok ⟨frames, .quoted use .opened⟩) := by
  rintro _ _ ⟨⟩
  exact ⟨Quoted.ofUInt8_injective (y := 34) h, rfl⟩

private theorem outside_afterSpace {byte : UInt8} {reader : Reader} (hr : Outside byte (.ok reader)) {c : Char}
    {read : Except Refusal Reader} (h : Outside byte read) : Outside byte (reader.afterSpace c read) := by
  unfold afterSpace
  split
  · exact hr
  · exact h

private theorem outside_complete (byte : UInt8) (frames : List Frame) (value : Json) (counted : Bool) :
    Outside byte (complete frames value counted) := by
  unfold complete
  split
  · exact .inr rfl
  · rintro _ _ ⟨⟩

private theorem outside_openValue (byte : UInt8) (frames : List Frame) {place : Place}
    (h : ∀ use text, place ≠ .quoted use text) : Outside byte (openValue frames place) := by
  unfold openValue
  split
  · exact .inr rfl
  · exact fun use text he => absurd he (h use text)

private theorem outside_beginValue (byte : UInt8) (frames : List Frame) :
    Outside byte (beginValue frames (Char.ofUInt8 byte)) := by
  unfold beginValue
  split
  case h_1 hq => exact outside_opened hq frames .value
  case h_2 | h_3 | h_4 => rintro _ _ ⟨⟩
  case h_5 | h_6 => exact outside_openValue byte frames (by rintro _ _ ⟨⟩)
  case h_7 =>
    split
    · rintro _ _ ⟨⟩
    · exact outside_refuse byte

private theorem outside_continueBehind (byte : UInt8) (value : Json) (frames : List Frame) (c : Char) :
    Outside byte (continueBehind value frames c) := by
  unfold continueBehind
  split
  case h_3 => exact outside_refuse byte
  all_goals
    split
    · rintro _ _ ⟨⟩
    split
    · rintro _ _ ⟨⟩
    · exact outside_refuse byte

private theorem outside_ends (byte : UInt8) (frames : List Frame) (value : Json) (c : Char) :
    Outside byte ((complete frames value false).bind fun behind =>
      behind.afterSpace c (continueBehind value frames c)) := by
  have hc := outside_complete byte frames value false
  cases h : complete frames value false with
  | error refusal =>
    rw [h] at hc
    exact hc
  | ok behind =>
    rw [h] at hc
    exact outside_afterSpace hc (outside_continueBehind byte value frames c)

private theorem step_outside {reader : Reader} (h : ∀ use text, reader.place ≠ .quoted use text) (byte : UInt8) :
    Outside byte (reader.step byte) := by
  obtain ⟨frames, place⟩ := reader
  have hr : Outside byte (.ok ⟨frames, place⟩) := fun use text he => absurd he (h use text)
  cases place with
  | value => exact outside_afterSpace hr (outside_beginValue byte frames)
  | firstElement =>
    refine outside_afterSpace hr ?_
    split
    · rintro _ _ ⟨⟩
    · exact outside_beginValue byte _
  | firstKey =>
    refine outside_afterSpace hr ?_
    split
    · rintro _ _ ⟨⟩
    split
    · rename_i hq
      exact outside_opened hq frames _
    · exact outside_refuse byte
  | nextKey before =>
    refine outside_afterSpace hr ?_
    split
    · rename_i hq
      exact outside_opened hq frames _
    · exact outside_refuse byte
  | colon before key =>
    refine outside_afterSpace hr ?_
    split
    · rintro _ _ ⟨⟩
    · exact outside_refuse byte
  | word letter letters value =>
    simp only [step]
    split
    · exact outside_refuse byte
    cases letters with
    | nil => exact outside_complete byte frames value true
    | cons second letters => rintro _ _ ⟨⟩
  | numeral stage read =>
    simp only [step]
    split
    · rintro _ _ ⟨⟩
    · exact outside_refuse byte
    · exact outside_ends byte frames _ _
  | quoted use text => exact absurd rfl (h use text)
  | closeTagged value =>
    refine outside_afterSpace hr ?_
    split
    · rintro _ _ ⟨⟩
    · exact outside_refuse byte
  | behind value => exact outside_afterSpace hr (outside_continueBehind byte value frames _)

private def EndsIllFormed (reader : Reader) (byte : UInt8) : Prop :=
  ∃ use text content, reader.place = .quoted use text ∧ text.next byte = .closes content ∧
    ∀ chars, content ≠ Utf8.encode chars

private theorem completeQuoted_error {frames : List Frame} {use : Use} {content : List UInt8} {refusal : Refusal}
    (h : completeQuoted frames use content = .error refusal) :
    (∃ place, refusal = ⟨.notNumeral place, true⟩) ∨
      (∃ tail, refusal = ⟨.illFormed tail, true⟩) ∧ ∀ chars, content ≠ Utf8.encode chars := by
  unfold completeQuoted at h
  split at h
  · split at h
    · cases h
    · split at h
      · cases h
      · cases h
        exact .inl ⟨_, rfl⟩
    · cases h
  · rename_i front tail hn hd
    cases h
    refine .inr ⟨⟨_, rfl⟩, ?_⟩
    rintro chars rfl
    rw [Utf8.decode_encode] at hd
    exact hn (congrArg Prod.snd hd).symm

private theorem step_error {reader : Reader} {byte : UInt8} {refusal : Refusal}
    (h : reader.step byte = .error refusal) :
    refusal = ⟨.unexpected, true⟩ ∨ refusal.cause = .notQuoted ∨ (∃ place, refusal = ⟨.notNumeral place, true⟩) ∨
      (∃ tail, refusal = ⟨.illFormed tail, true⟩) ∧ reader.EndsIllFormed byte := by
  by_cases hq : ∃ use text, reader.place = .quoted use text
  · obtain ⟨use, text, hp⟩ := hq
    simp only [step, hp] at h
    split at h
    · cases h
    · rename_i content hc
      rcases completeQuoted_error h with hn | ⟨hi, hn⟩
      · exact .inr (.inr (.inl hn))
      · exact .inr (.inr (.inr ⟨hi, use, text, content, hp, hc, hn⟩))
    · cases h
      exact .inl rfl
  · have ho := step_outside (fun use text he => hq ⟨use, text, he⟩) byte
    rw [h] at ho
    exact ho.imp id .inl

private theorem step_quoted {reader : Reader} {byte : UInt8} {frames : List Frame} {use : Use} {text : Quoted}
    (h : reader.step byte = .ok ⟨frames, .quoted use text⟩) :
    byte = 34 ∧ text = .opened ∨
      ∃ before, reader = ⟨frames, .quoted use before⟩ ∧ before.next byte = .more text := by
  by_cases hq : ∃ use text, reader.place = .quoted use text
  · obtain ⟨use', before, hp⟩ := hq
    simp only [step, hp] at h
    split at h
    · rename_i hm
      cases h
      exact .inr ⟨before, by rw [← hp], hm⟩
    · unfold completeQuoted at h
      repeat' split at h
      all_goals cases h
    · cases h
  · have ho := step_outside (fun use text he => hq ⟨use, text, he⟩) byte
    rw [h] at ho
    exact .inl (ho use text rfl)

private theorem opened_of_feed {text : List UInt8} {frames : List Frame} {use : Use} {quoted : Quoted}
    (h : start.feed text = .ok ⟨frames, .quoted use quoted⟩) :
    ∃ front inside, text = front ++ [34] ++ inside ∧
      start.feed (front ++ [34]) = .ok ⟨frames, .quoted use .opened⟩ ∧ Quoted.Holds inside quoted := by
  induction text using List.reverseRecOn generalizing quoted with
  | nil => cases h
  | append_singleton text byte ih =>
    obtain ⟨behind, hf, hs⟩ := feed_snoc h
    rcases step_quoted hs with ⟨rfl, rfl⟩ | ⟨before, rfl, hn⟩
    · exact ⟨text, [], (List.append_nil _).symm, h, Quoted.holds_opened⟩
    · obtain ⟨front, inside, rfl, ho, hi⟩ := ih hf
      exact ⟨front, inside ++ [byte], by simp, ho, hi.step hn⟩

/-- The last byte of the text is the quote that closes a quoted text, and the content of that is not UTF-8. -/
def ClosesIllFormed (text : List UInt8) : Prop :=
  ∃ (front : List UInt8) (frames : List Frame) (use : Use) (pieces : List Quoted.Piece),
    text = front ++ [34] ++ pieces.flatMap Quoted.Piece.text ++ [34] ∧
    start.feed (front ++ [34]) = .ok ⟨frames, .quoted use .opened⟩ ∧
    (∀ piece ∈ pieces, piece.Allowed) ∧ ∀ chars, pieces.flatMap Quoted.Piece.content ≠ Utf8.encode chars

private theorem closesIllFormed_of_endsIllFormed {text : List UInt8} {reader : Reader} (hf : start.feed text = .ok reader)
    {byte : UInt8} (h : reader.EndsIllFormed byte) : ClosesIllFormed (text ++ [byte]) := by
  obtain ⟨frames, place⟩ := reader
  obtain ⟨use, quoted, content, rfl, hc, hn⟩ := h
  obtain ⟨front, inside, rfl, ho, hi⟩ := opened_of_feed hf
  obtain ⟨rfl, pieces, ha, rfl, rfl⟩ := hi.closes hc
  exact ⟨front, frames, use, pieces, rfl, ho, ha, hn⟩

private theorem finish_left {reader : Reader} {fault : Fault} (h : reader.finish = .error fault) : fault.left = [] := by
  unfold finish at h
  repeat' split at h
  all_goals cases h <;> rfl

end Reader

namespace Json

private theorem ended_of_incomplete {text : List UInt8} {fault : Fault} (h : read text = .error fault)
    (hc : fault.category = .incomplete) : fault = ⟨.ended, []⟩ := by
  obtain ⟨cause, left⟩ := fault
  rcases fault_cases h with hf | ⟨reader, -, hf⟩
  · obtain ⟨front, byte, rest, behind, refusal, -, -, hs, he⟩ := Reader.feed_error hf
    cases he
    rcases Reader.step_error hs with rfl | hq | ⟨place, rfl⟩ | ⟨⟨tail, rfl⟩, -⟩
    · cases hc
    · rw [Fault.category, hq] at hc
      cases hc
    · cases hc
    · cases hc
  · cases Reader.finish_left hf
    cases cause <;> first | rfl | cases hc

private theorem refused_of_malformed {text : List UInt8} {fault : Fault} (h : read text = .error fault)
    (hc : fault.category = .malformed) :
    ∃ front byte reader, text = front ++ byte :: fault.left ∧ Reader.start.feed front = .ok reader ∧
      reader.step byte = .error ⟨fault.cause, true⟩ := by
  obtain ⟨front, byte, rest, reader, refusal, rfl, hf, hs, rfl⟩ := Reader.feed_error (feed_of_malformed h hc)
  have hcounted : refusal = ⟨refusal.cause, true⟩ := by
    rcases Reader.step_error hs with rfl | hq | ⟨place, rfl⟩ | ⟨⟨tail, rfl⟩, -⟩
    · rfl
    · rw [Fault.category, hq] at hc
      cases hc
    · rfl
    · rfl
  rw [hcounted] at hs ⊢
  exact ⟨front, byte, reader, rfl, hf, hs⟩

end Json

namespace Example

def Malformed (text : List UInt8) : Prop := ∃ place, (ofText text).events = [.replaced .malformed place]

private theorem malformed_iff {text : List UInt8} :
    Malformed text ↔ ∃ fault, Json.read text = .error fault ∧ fault.category = .malformed := by
  constructor
  · rintro ⟨place, h⟩
    obtain ⟨fault, hf, hc, -⟩ := events_eq_replaced_iff.1 h
    exact ⟨fault, hf, hc⟩
  · rintro ⟨fault, hf, hc⟩
    exact ⟨_, events_eq_replaced_iff.2 ⟨fault, hf, hc, rfl⟩⟩

private theorem not_malformed_take {text : List UInt8} {reader : Reader} (h : Reader.start.feed text = .ok reader)
    (n : Nat) : ¬ Malformed (text.take n) := by
  intro hm
  obtain ⟨fault, hf, hc⟩ := malformed_iff.1 hm
  have hfeed := Json.feed_of_malformed hf hc
  rw [← List.take_append_drop n text, Reader.feed_append, hfeed] at h
  cases h

private theorem take_refused (front rest : List UInt8) (byte : UInt8) :
    (front ++ byte :: rest).take (front.length + 1) = front ++ [byte] := by
  rw [List.append_cons]
  exact List.take_left' List.length_append

private theorem isLeast_refused {front rest : List UInt8} {byte : UInt8} {reader : Reader}
    (hf : Reader.start.feed front = .ok reader) {refusal : Reader.Refusal} (hs : reader.step byte = .error refusal)
    (hc : refusal.cause.category = .malformed) :
    IsLeast {n | Malformed ((front ++ byte :: rest).take n)} (front.length + 1) := by
  constructor
  · show Malformed ((front ++ byte :: rest).take (front.length + 1))
    rw [take_refused, malformed_iff]
    have hread : Json.read (front ++ [byte]) = .error ⟨refusal.cause, if refusal.counted then [] else [byte]⟩ := by
      simp only [Json.read, Reader.feed_append, hf, Reader.feed, hs]
      rfl
    exact ⟨_, hread, hc⟩
  · intro n (hn : Malformed ((front ++ byte :: rest).take n))
    -- A front without that byte has been read, and so is not malformed.
    refine Nat.lt_of_not_le fun hle => ?_
    rw [List.take_append_of_le_length hle] at hn
    exact not_malformed_take hf n hn

/-- Where a text that is no JSON is reported. An incomplete one is reported at its end. A malformed one is reported
behind its shortest front that is malformed on its own, unless the last byte there is the quote that closes an
ill-formed content: that is reported in the same line, and not further on. -/
theorem ofText_position (text : List UInt8) :
    (∀ place, (ofText text).events = [.replaced .incomplete place] → place = Position.ofIndex text text.length) ∧
    (∀ place, (ofText text).events = [.replaced .malformed place] →
      ∃ k, IsLeast {n | Malformed (text.take n)} k ∧ k ≤ text.length ∧
        place.line = (Position.ofIndex text k).line ∧ place.column ≤ (Position.ofIndex text k).column ∧
        (¬ Reader.ClosesIllFormed (text.take k) → place.column = (Position.ofIndex text k).column)) := by
  refine ⟨fun place h => ?_, fun place h => ?_⟩
  · obtain ⟨fault, hf, hc, rfl⟩ := events_eq_replaced_iff.1 h
    cases Json.ended_of_incomplete hf hc
    exact Position.after_take (Nat.sub_le _ _)
  · obtain ⟨fault, hf, hc, rfl⟩ := events_eq_replaced_iff.1 h
    obtain ⟨cause, left⟩ := fault
    obtain ⟨front, byte, reader, rfl, hr, hs⟩ := Json.refused_of_malformed hf hc
    have hk : front.length + 1 ≤ (front ++ byte :: left).length := by
      rw [List.length_append, List.length_cons]
      omega
    have hread : (front ++ byte :: left).length - left.length = front.length + 1 := by
      rw [List.length_append, List.length_cons]
      omega
    refine ⟨front.length + 1, isLeast_refused hr hs hc, hk, ?_⟩
    simp only [Fault.position, hread, Position.after_take hk]
    rcases Reader.step_error hs with he | hq | ⟨place, he⟩ | ⟨⟨tail, he⟩, hb⟩
    · cases he
      exact ⟨rfl, Nat.le_refl _, fun _ => rfl⟩
    · cases hq
      cases hc
    · cases he
      cases hc
    · cases he
      refine ⟨rfl, Nat.sub_le _ _, fun hn => absurd ?_ hn⟩
      rw [take_refused]
      exact Reader.closesIllFormed_of_endsIllFormed hr hb

/-- An array that a brace closes in its second line, one that has no end, and a quoted byte that begins no character. -/
theorem ofText_position_brackets :
    ((ofText [91, 10]).events = [.replaced .incomplete ⟨2, 0⟩] ∧ ⟨2, 0⟩ = Position.ofIndex [91, 10] 2) ∧
    ((ofText [91, 10, 125]).events = [.replaced .malformed ⟨2, 1⟩] ∧
      ∃ k, IsLeast {n | Malformed (List.take n [91, 10, 125])} k ∧
        ¬ Reader.ClosesIllFormed (List.take k [91, 10, 125]) ∧ 2 = (Position.ofIndex [91, 10, 125] k).line ∧
        1 = (Position.ofIndex [91, 10, 125] k).column) ∧
    ((ofText [34, 255, 34]).events = [.replaced .malformed ⟨1, 2⟩] ∧
      ∃ k, IsLeast {n | Malformed (List.take n [34, 255, 34])} k ∧
        1 = (Position.ofIndex [34, 255, 34] k).line ∧ 2 ≤ (Position.ofIndex [34, 255, 34] k).column) := by
  have hopen : (ofText [91, 10]).events = [.replaced .incomplete ⟨2, 0⟩] := by rfl
  have hbrace : (ofText [91, 10, 125]).events = [.replaced .malformed ⟨2, 1⟩] := by rfl
  have hquoted : (ofText [34, 255, 34]).events = [.replaced .malformed ⟨1, 2⟩] := by decide +kernel
  have hno (k : Nat) : ¬ Reader.ClosesIllFormed (List.take k [91, 10, 125]) := by
    rintro ⟨front, frames, use, pieces, he, -⟩
    have hmem : (34 : UInt8) ∈ List.take k [91, 10, 125] := by
      rw [he]
      simp
    exact absurd (List.mem_of_mem_take hmem) (by decide)
  obtain ⟨k, hk, -, hl, -, hc⟩ := (ofText_position [91, 10, 125]).2 _ hbrace
  obtain ⟨l, hm, -, hline, hcolumn, -⟩ := (ofText_position [34, 255, 34]).2 _ hquoted
  exact ⟨⟨hopen, (ofText_position [91, 10]).1 _ hopen⟩, ⟨hbrace, k, hk, hno k, hl, hc (hno k)⟩,
    hquoted, l, hm, hline, hcolumn⟩

end Example

end TypeSketch
