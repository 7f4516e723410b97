import TypeSketch.Proofs.Json.Verbatim

/-! Texts that the reader refuses. Behind the tag it takes nothing but a quoted numeral and the closing brace: any other
value is refused, and so is a second member. -/
namespace TypeSketch.Reader
open Json

def Refuses (reader : Reader) (text : List Char) : Prop := ∃ fault, reader.feed (Utf8.encode text) = .error fault

/-- Behind a text that is read the reader goes on from where it leads. -/
theorem Reads.feed {reader next : Reader} {front : List Char} (h : Reads reader front next) (back : List Char) :
    reader.feed (Utf8.encode (front ++ back)) = next.feed (Utf8.encode back) := by
  rw [Utf8.encode_append, feed_append, h]

/-- What is refused is refused with more behind it. -/
theorem Refuses.append {reader : Reader} {text : List Char} (h : Refuses reader text) (more : List Char) :
    Refuses reader (text ++ more) := by
  obtain ⟨fault, hf⟩ := h
  rw [Refuses, Utf8.encode_append, feed_append, hf]
  exact ⟨_, rfl⟩

/-- What is refused is refused behind what is read. -/
theorem Reads.refuses {reader next : Reader} {front back : List Char} (hr : Reads reader front next)
    (h : Refuses next back) : Refuses reader (front ++ back) := by
  rw [Refuses, hr.feed]
  exact h

/-- A character below 128 is refused as its byte is. -/
theorem Refuses.char {reader : Reader} {c : Char} (hc : c.toNat < 0x80) {refusal : Refusal}
    (h : reader.step (UInt8.ofNat c.toNat) = .error refusal) : Refuses reader [c] := by
  rw [Refuses, Utf8.encode_cons, Utf8.encodeChar_of_lt hc]
  simp only [Utf8.encode_nil, List.append_nil, feed, h]
  exact ⟨_, rfl⟩

variable {outer : List Frame}

private theorem refuses_word {text : List Char} (h : text = ['n', 'u', 'l', 'l'] ∨ text = ['t', 'r', 'u', 'e'] ∨
    text = ['f', 'a', 'l', 's', 'e']) : Refuses ⟨.tagged :: outer, .value⟩ text := by
  rcases h with rfl | rfl | rfl <;> exact ⟨_, rfl⟩

/-- An unquoted number behind the tag is complete, and refused, by what follows it. -/
theorem Ends.refuses {value : Json} {reader : Reader} (h : Ends (.tagged :: outer) value reader)
    {gap : List Char} (hg : IsGap gap) {c : Char} (hc : c = ',' ∨ c = '}') : Refuses reader (gap ++ [c]) := by
  have hlt : c.toNat < 0x80 := by rcases hc with rfl | rfl <;> decide
  cases h with
  | behind =>
    have hgap := @Reads.gap ⟨.tagged :: outer, .behind value⟩ trivial _ hg
    refine hgap.refuses (@Refuses.char _ _ hlt ⟨.unexpected, true⟩ ?_)
    rcases hc with rfl | rfl <;> rfl
  | @numeral stage read complete denotes =>
    have hstep {d : Char} (hd : d = ' ' ∨ d = '\t' ∨ d = '\n' ∨ d = '\r' ∨ d = ',' ∨ d = ']' ∨ d = '}')
        (hl : d.toNat < 0x80) : Refuses ⟨.tagged :: outer, .numeral stage read⟩ [d] := by
      refine @Refuses.char _ _ hl ⟨.notQuoted, false⟩ ?_
      simp only [Reader.step, Utf8.ofUInt8_ofNat hl, next_ends complete hd]
      rfl
    cases gap with
    | nil => exact hstep (by rcases hc with rfl | rfl <;> simp) hlt
    | cons space gap =>
      obtain ⟨hs, -⟩ := List.forall_mem_cons.1 hg
      have hspace := hstep (by rcases hs with rfl | rfl | rfl | rfl <;> simp) (ascii_of_isSpace (isSpace_iff.2 hs))
      exact hspace.append (gap ++ [c])

/-- A content that is no numeral does not close a tagged one. -/
theorem completeQuoted_notNumeral {content : List Char} (hn : ¬ ∃ kept, Numeral.Written content kept) :
    ∃ place, completeQuoted (.tagged :: outer) .value (Utf8.encode content) = .error ⟨.notNumeral place, true⟩ := by
  rw [completeQuoted, Utf8.decode_encode]
  cases hf : Numeral.fault? ((Utf8.encode content).map Char.ofUInt8) with
  | none => exact absurd (numeral_of_fault? hf) hn
  | some passed => exact ⟨_, rfl⟩

/-- A quoted text behind the tag that is no numeral is refused for what it is. -/
theorem feed_notNumeral {text content : List Char} (h : Quoted.Written text content)
    (hn : ¬ ∃ kept, Numeral.Written content kept) (outer : List Frame) (back : List Char) :
    ∃ place left, feed ⟨.tagged :: outer, .value⟩ (Utf8.encode (text ++ back)) = .error ⟨.notNumeral place, left⟩ := by
  obtain @⟨inside, _, hi⟩ := h
  obtain ⟨place, hc⟩ := @completeQuoted_notNumeral outer _ hn
  have hinside := (Reads.openQuoted (.tagged :: outer)).trans (Reads.content hi _ _)
  have hclosing : feed ⟨.tagged :: outer, .quoted .value ⟨(Utf8.encode content).reverse, .plain⟩⟩
      (Utf8.encode ('"' :: back)) = .error ⟨.notNumeral place, Utf8.encode back⟩ := by
    rw [Utf8.encode_cons, Utf8.encodeChar_of_lt (by decide)]
    simp only [List.singleton_append, feed, step_closingQuote, hc, if_true]
  have hread := (hinside.feed ('"' :: back)).trans hclosing
  exact ⟨place, Utf8.encode back, by simpa using hread⟩

/-- A quoted text behind the tag is refused at its end if it is no numeral. -/
theorem refuses_quoted {text content : List Char} (h : Quoted.Written text content)
    (hn : ¬ ∃ kept, Numeral.Written content kept) : Refuses ⟨.tagged :: outer, .value⟩ text := by
  obtain ⟨place, left, hf⟩ := feed_notNumeral h hn outer []
  rw [List.append_nil] at hf
  exact ⟨_, hf⟩

/-- A quoted numeral behind the tag is read, but only the closing brace can follow it. -/
theorem refuses_second {text content kept : List Char} (h : Quoted.Written text content)
    (hn : Numeral.Written content kept) {gap : List Char} (hg : IsGap gap) :
    Refuses ⟨.tagged :: outer, .value⟩ (text ++ (gap ++ [','])) := by
  obtain @⟨inside, _, hi⟩ := h
  have hquoted := (Reads.openQuoted (.tagged :: outer)).trans (Reads.inside hi (completeQuoted_tagged hn outer))
  have hgap := @Reads.gap ⟨outer, .closeTagged (.number (String.ofList kept))⟩ trivial _ hg
  exact hquoted.refuses (hgap.refuses (@Refuses.char _ ',' (by decide) ⟨.unexpected, true⟩ rfl))

/-- From everywhere but the inside of a tagged numeral the text is refused. -/
def IsRefused (text : List Char) : Prop := ∀ frames, Untagged frames → Refuses ⟨frames, .value⟩ text

/-- Behind the tag nothing but a quoted numeral is read. -/
theorem refuses_behindTag {text : List Char} {value : Json} (h : Verbatim text value)
    (hn : ∀ content kept, value = .string (String.ofList content) → ¬ Numeral.Written content kept)
    {gap : List Char} (hg : IsGap gap) {c : Char} (hc : c = ',' ∨ c = '}') :
    Refuses ⟨.tagged :: outer, .value⟩ (text ++ (gap ++ [c])) := by
  cases h with
  | null => exact (refuses_word (by simp)).append _
  | true => exact (refuses_word (by simp)).append _
  | false => exact (refuses_word (by simp)).append _
  | number h =>
    obtain ⟨reader, hr, he⟩ := Reads.numeral h (.tagged :: outer)
    exact hr.refuses (he.refuses hg hc)
  | @string _ content h => exact (refuses_quoted h fun ⟨kept, hk⟩ => hn content kept rfl hk).append _
  | emptyArray | array =>
    have hopen : Refuses ⟨.tagged :: outer, .value⟩ ['['] := @Refuses.char _ '[' (by decide) ⟨.notQuoted, false⟩ rfl
    simpa using hopen.append _
  | emptyObject | object =>
    have hopen : Refuses ⟨.tagged :: outer, .value⟩ ['{'] := @Refuses.char _ '{' (by decide) ⟨.notQuoted, false⟩ rfl
    simpa using hopen.append _

private theorem refuses_comma {text : List Char} {value : Json} (h : Verbatim text value) {gap : List Char}
    (hg : IsGap gap) : Refuses ⟨.tagged :: outer, .value⟩ (text ++ (gap ++ [','])) := by
  by_cases hq : ∃ content kept, value = .string (String.ofList content) ∧ Numeral.Written content kept
  · obtain ⟨content, kept, rfl, hk⟩ := hq
    have hw := h.quoted
    rw [String.toList_ofList] at hw
    exact refuses_second hw hk hg
  · exact refuses_behindTag h (fun content kept hv hk => hq ⟨content, kept, hv, hk⟩) hg (.inl rfl)

/-- An element whose text is refused is refused with the gaps around it. -/
theorem refuses_element {element : Element} (hg : element.Gaps) (h : IsRefused element.text)
    {frames : List Frame} (ht : Untagged frames) : Refuses ⟨frames, .value⟩ element.written := by
  have hgap := @Reads.gap ⟨frames, .value⟩ trivial _ hg.1
  exact (hgap.refuses (h frames ht)).append element.after

/-- Elements of which the first ones are read are refused with the next one. -/
theorem refuses_elements {elements : List Element} (hg : ∀ element ∈ elements, element.Gaps)
    (h : ∀ element ∈ elements, (∃ value, IsRead element.text value) ∨ IsRefused element.text)
    (hr : ∃ element ∈ elements, IsRefused element.text) (frames : List Frame) (before : List Json) :
    Refuses ⟨.element before :: frames, .value⟩ (commaSeparated (elements.map Element.written)) := by
  induction elements generalizing before with
  | nil =>
    obtain ⟨_, he, -⟩ := hr
    cases he
  | cons element elements ih =>
    rw [List.forall_mem_cons] at hg h
    have ht : Untagged (.element before :: frames) := trivial
    by_cases hrefused : IsRefused element.text
    · obtain ⟨more, hm⟩ := commaSeparated_front element.written (elements.map Element.written)
      rw [List.map_cons, hm]
      exact (refuses_element hg.1 hrefused ht).append more
    · obtain ⟨other, ho, hother⟩ := ((List.exists_mem_cons_iff _ _ _).1 hr).resolve_left hrefused
      obtain ⟨value, hread⟩ := h.1.resolve_right hrefused
      have hfirst : Reads ⟨.element before :: frames, .value⟩ (element.written ++ [','])
          ⟨.element (value :: before) :: frames, .value⟩ :=
        @reads_element { element with value } hg.1 hread _ ht ',' (by decide) _ rfl
      rw [List.map_cons, commaSeparated_cons _ (List.ne_nil_of_mem (List.mem_map_of_mem ho))]
      simpa using hfirst.refuses (ih hg.2 h.2 ⟨other, ho, hother⟩ (value :: before))

/-- What is refused where a further key must come is refused behind a member that is read. -/
theorem refuses_nextMember {member : Member} (hk : member.Keyed) (hg : member.element.Gaps) {value : Json}
    (hr : IsRead member.element.text value) {frames : List Frame} {before : Members} {members : List Member}
    (hu : before = [] → ((member :: members).map Member.key).head? ≠ some tag) {text : List Char}
    (h : ∀ before : Members, before ≠ [] → Refuses ⟨frames, .nextKey before⟩ text) :
    Refuses ⟨frames, .nextKey before⟩ (member.written ++ ',' :: text) := by
  have hfirst : Reads ⟨frames, .nextKey before⟩ (member.written ++ [','])
      ⟨frames, .nextKey (before.put member.key value)⟩ :=
    @reads_member { member with element.value := value } hk hg hr _ _ (not_tagged hu) ',' (by decide) _ rfl
  simpa using hfirst.refuses (h _ (Members.put_ne_nil _ _ _))

/-- Members that are each read or refused are refused together if one of them is. -/
theorem refuses_members {members : List Member} (hk : ∀ member ∈ members, member.Keyed)
    (hg : ∀ member ∈ members, member.element.Gaps)
    (h : ∀ member ∈ members, (∃ value, IsRead member.element.text value) ∨ IsRefused member.element.text)
    (hr : ∃ member ∈ members, IsRefused member.element.text) (frames : List Frame) {before : Members}
    (hu : before = [] → (members.map Member.key).head? ≠ some tag) :
    Refuses ⟨frames, .nextKey before⟩ (commaSeparated (members.map Member.written)) := by
  induction members generalizing before with
  | nil =>
    obtain ⟨_, hm, -⟩ := hr
    cases hm
  | cons member members ih =>
    rw [List.forall_mem_cons] at hk hg h
    by_cases hrefused : IsRefused member.element.text
    · obtain ⟨more, hmore⟩ := commaSeparated_front member.written (members.map Member.written)
      have hkey := reads_key hk.1 frames before
      rw [if_neg (not_tagged hu)] at hkey
      have helement := @refuses_element _ hg.1 hrefused (.member before member.key :: frames) trivial
      rw [List.map_cons, hmore, Member.written]
      simpa using (hkey.refuses helement).append more
    · obtain ⟨other, ho, hother⟩ := ((List.exists_mem_cons_iff _ _ _).1 hr).resolve_left hrefused
      obtain ⟨value, hread⟩ := h.1.resolve_right hrefused
      rw [List.map_cons, commaSeparated_cons _ (List.ne_nil_of_mem (List.mem_map_of_mem ho))]
      exact refuses_nextMember hk.1 hg.1 hread hu fun _ hn => ih hk.2 hg.2 h.2 ⟨other, ho, hother⟩ fun he => absurd he hn

/-- Behind the tag its value is read. -/
theorem feed_tag {member : Member} (ht : member.key = tag) (hk : member.Keyed) (hg : member.element.Gaps)
    (frames : List Frame) (back : List Char) :
    feed ⟨frames, .nextKey []⟩ (Utf8.encode (member.written ++ back)) =
      feed ⟨.tagged :: frames, .value⟩ (Utf8.encode (member.element.text ++ (member.element.after ++ back))) := by
  have hkey := reads_key hk frames []
  rw [if_pos (by simp [ht])] at hkey
  have hgap := @Reads.gap ⟨.tagged :: frames, .value⟩ trivial _ hg.1
  have hvalue := (hkey.trans hgap).feed (member.element.text ++ (member.element.after ++ back))
  rw [← hvalue, Member.written, Element.written]
  simp only [List.append_assoc, List.cons_append, List.nil_append]

private theorem refuses_firstMember {member : Member} (ht : member.key = tag) (hk : member.Keyed)
    (hg : member.element.Gaps) {frames : List Frame} {c : Char}
    (h : Refuses ⟨.tagged :: frames, .value⟩ (member.element.text ++ (member.element.after ++ [c]))) :
    Refuses ⟨frames, .nextKey []⟩ (member.written ++ [c]) := by
  rw [Refuses, feed_tag ht hk hg]
  exact h

/-- An object that has the tag in front is refused, unless it holds a quoted numeral and nothing else. -/
theorem refuses_tagged {members : List Member} (ht : (members.map Member.key).head? = some tag)
    (hk : ∀ member ∈ members, member.Keyed) (hg : ∀ member ∈ members, member.element.Gaps)
    (h : ∀ member ∈ members, Verbatim member.element.text member.element.value)
    (hn : ∀ content kept, members.map Member.entry = [(tag, .string (String.ofList content))] →
      ¬ Numeral.Written content kept) (frames : List Frame) :
    Refuses ⟨frames, .nextKey []⟩ (commaSeparated (members.map Member.written) ++ ['}']) := by
  cases members with
  | nil => cases ht
  | cons member members =>
    have hkey : member.key = tag := Option.some.inj ht
    rw [List.forall_mem_cons] at hk hg h
    cases members with
    | nil =>
      have hvalue := @refuses_behindTag frames _ _ h.1
        (fun content kept hv => hn content kept (by simp [Member.entry, hkey, hv])) _ hg.1.2 _ (.inr rfl)
      simpa [commaSeparated_singleton] using refuses_firstMember hkey hk.1 hg.1 hvalue
    | cons second members =>
      have hmember := refuses_firstMember hkey hk.1 hg.1 (@refuses_comma frames _ _ h.1 _ hg.1.2)
      rw [List.map_cons, commaSeparated_cons _ (by simp)]
      simpa using (hmember.append (commaSeparated ((second :: members).map Member.written))).append ['}']

private theorem begins_verbatim {text : List Char} {value : Json} (h : Verbatim text value) : Begins text := by
  cases h with
  | null | true | false | emptyArray | array | emptyObject | object =>
    exact ⟨_, _, rfl, by decide, by decide, by decide⟩
  | string h => exact begins_quoted h
  | number h => exact begins_numeral h

/-- An array of elements that are each read or refused is refused if one of them is. -/
theorem isRefused_array {elements : List Element} (nonempty : elements ≠ [])
    (gaps : ∀ element ∈ elements, element.Gaps) (begins : ∀ element ∈ elements, Begins element.text)
    (h : ∀ element ∈ elements, (∃ value, IsRead element.text value) ∨ IsRefused element.text)
    (hr : ∃ element ∈ elements, IsRefused element.text) :
    IsRefused ('[' :: commaSeparated (elements.map Element.written) ++ [']']) := by
  intro frames ht
  have helements := (refuses_elements gaps h hr frames []).append [']']
  rw [Refuses, ← feed_firstElement nonempty gaps begins] at helements
  exact (Reads.openArray ht).refuses helements

/-- An object is refused if its members are refused behind its opening brace. -/
theorem isRefused_object {members : List Member} (nonempty : members ≠ [])
    (keyed : ∀ member ∈ members, member.Keyed)
    (h : ∀ frames, Refuses ⟨frames, .nextKey []⟩ (commaSeparated (members.map Member.written) ++ ['}'])) :
    IsRefused ('{' :: commaSeparated (members.map Member.written) ++ ['}']) := by
  intro frames ht
  have hmembers := h frames
  rw [Refuses, ← feed_firstKey nonempty keyed] at hmembers
  exact (Reads.openObject ht).refuses hmembers

/-- A text that spells out a value is refused, or there is something that the value is read as. -/
theorem readAs_or_isRefused {text : List Char} {value : Json} (h : Verbatim text value) :
    (∃ read, value.ReadAs read) ∨ IsRefused text := by
  induction h with
  | null => exact .inl ⟨_, .null⟩
  | true => exact .inl ⟨_, .bool _⟩
  | false => exact .inl ⟨_, .bool _⟩
  | number => exact .inl ⟨_, .number _⟩
  | string => exact .inl ⟨_, .string _⟩
  | emptyArray => exact .inl ⟨_, @ReadAs.array [] id (by simp)⟩
  | emptyObject => exact .inl ⟨_, @ReadAs.object [] id (by simp [Members.keys]) (by simp)⟩
  | @array elements nonempty gaps verbatim ih =>
    by_cases hr : ∃ element ∈ elements, IsRefused element.text
    · refine .inr (isRefused_array nonempty gaps (fun element he => begins_verbatim (verbatim element he)) ?_ hr)
      intro element he
      exact (ih element he).imp_left (Exists.imp fun _ hr => isRead_of_written ((verbatim element he).written hr))
    · refine .inl (exists_readAs_array (List.forall_mem_map.2 fun element he => ?_))
      exact (ih element he).resolve_right fun h => hr ⟨element, he, h⟩
  | @object members nonempty keyed gaps verbatim ih =>
    by_cases ht : (members.map Member.key).head? = some tag
    · by_cases hn : ∃ content kept, members.map Member.entry = [(tag, .string (String.ofList content))] ∧
          Numeral.Written content kept
      · obtain ⟨content, kept, he, hk⟩ := hn
        rw [he]
        exact .inl ⟨_, .tagged hk⟩
      · refine .inr (isRefused_object nonempty keyed (refuses_tagged ht keyed gaps verbatim ?_))
        exact fun content kept he hk => hn ⟨content, kept, he, hk⟩
    · by_cases hr : ∃ member ∈ members, IsRefused member.element.text
      · refine .inr (isRefused_object nonempty keyed fun frames => ?_)
        refine (refuses_members keyed gaps ?_ hr frames fun _ => ht).append ['}']
        intro member hm
        exact (ih member hm).imp_left (Exists.imp fun _ hr => isRead_of_written ((verbatim member hm).written hr))
      · have hfirst : (Members.keys (members.map Member.entry)).head? ≠ some tag := by
          rw [Members.keys, List.map_map]
          exact ht
        refine .inl (exists_readAs_object hfirst (List.forall_mem_map.2 fun member hm => ?_))
        exact (ih member hm).resolve_right fun h => hr ⟨member, hm, h⟩

end TypeSketch.Reader

namespace TypeSketch.Example
open Json

/-- A text that spells out a value tells nothing exactly if there is something that the value is read as, which it then
stands for; if there is nothing, the empty object takes its place. Where no object has the tag in front, it is the value
itself with its members merged, so an object stays one, with the keys that were written. -/
theorem ofText_spelledOut {bytes : List UInt8} {value : Json} (h : SpelledOut bytes value) :
    (∀ read, ofText bytes = ⟨read, []⟩ ↔ value.ReadAs read) ∧
      ((∀ read, ¬ value.ReadAs read) → ∃ event, event.level = .debug ∧ ofText bytes = ⟨.object [], [event]⟩) ∧
      (value.Untagged → ofText bytes = ⟨value.settled, []⟩ ∧
        ∀ members, value = .object members →
          ∃ fields, value.settled = .object fields ∧ Members.keys fields = (Members.keys members).eraseDups) := by
  obtain ⟨element, hg, hv, rfl, rfl⟩ := h
  have hdenoted {read : Json} (hr : element.value.ReadAs read) : Json.read (Utf8.encode element.written) = .ok read :=
    read_of_denoted ⟨_, rfl, { element with value := read }, hg, hv.written hr, rfl, rfl⟩
  have hread (read : Json) : ofText (Utf8.encode element.written) = ⟨read, []⟩ ↔ element.value.ReadAs read := by
    rw [ofText_eq_pure_iff]
    refine ⟨fun h => ?_, hdenoted⟩
    rcases Reader.readAs_or_isRefused hv with ⟨other, ho⟩ | hr
    · have hsame := hdenoted ho
      rw [h] at hsame
      exact Except.ok.inj hsame ▸ ho
    · obtain ⟨fault, hf⟩ := Reader.refuses_element hg hr (show Reader.Untagged [] from trivial)
      rw [Json.read, Reader.start, hf] at h
      cases h
  refine ⟨hread, fun hn => ?_, fun hu => ⟨(hread _).2 hu.readAs, fun members hm => ?_⟩⟩
  · cases hr : Json.read (Utf8.encode element.written) with
    | ok read => exact absurd ((hread read).1 (ofText_of_ok hr)) (hn read)
    | error fault => exact ⟨_, rfl, ofText_of_error hr⟩
  · rw [hm]
    exact ⟨_, rfl, keys_settledMembers members⟩

private theorem written_one : Numeral.Written ['1'] ['1'] :=
  @Numeral.Written.mk [] ['1'] [] [] [] (.inl rfl) (.digits (by simp [Numeral.Digits]) (by decide)) .absent .absent

def repeated : List UInt8 := Utf8.encode "\x7b\"a\":[],\"a\":1\x7d".toList

/-- The second value takes the place of the first. -/
theorem ofText_spelledOut_repeated :
    SpelledOut repeated (.object [("a", .array []), ("a", .number "1")]) ∧
      Json.Untagged (.object [("a", .array []), ("a", .number "1")]) ∧
      ofText repeated = ⟨.object [("a", .number "1")], []⟩ := by
  have hquoted : Quoted.Written ['"', 'a', '"'] ['a'] := .mk (.cons (.raw (by decide) (by decide) (by decide)) .nil)
  have hkeyed {element : Element} : Member.Keyed ⟨[], ['"', 'a', '"'], [], "a", element⟩ := by
    simp [Member.Keyed, isGap_nil, hquoted]
  have hgaps {text : List Char} {value : Json} : Element.Gaps ⟨[], text, [], value⟩ := ⟨isGap_nil, isGap_nil⟩
  have hspelled : SpelledOut repeated (.object [("a", .array []), ("a", .number "1")]) := by
    have hobject := @Verbatim.object [⟨[], _, [], "a", [], _, [], .array []⟩,
        ⟨[], _, [], "a", [], _, [], .number "1"⟩] (List.cons_ne_nil _ _)
      (List.forall_mem_cons.2 ⟨hkeyed, List.forall_mem_singleton.2 hkeyed⟩)
      (List.forall_mem_cons.2 ⟨hgaps, List.forall_mem_singleton.2 hgaps⟩)
      (List.forall_mem_cons.2 ⟨@Verbatim.emptyArray [] isGap_nil, List.forall_mem_singleton.2 (.number written_one)⟩)
    exact ⟨⟨[], _, [], _⟩, hgaps, hobject, by rfl, rfl⟩
  have huntagged : Json.Untagged (.object [("a", .array []), ("a", .number "1")]) := by
    intro members hm
    cases hm with
    | self => decide
    | field hf hi =>
      rcases List.mem_pair.1 hf with rfl | rfl
      · cases hi with
        | element he _ => cases he
      · cases hi
  exact ⟨hspelled, huntagged, ((ofText_spelledOut hspelled).2.2 huntagged).1⟩

/-- A tagged numeral that is not quoted, as an object with one member. -/
def taggedNumber : List UInt8 := Utf8.encode ("\x7b\"" ++ Reader.tag ++ "\":1\x7d").toList

/-- An object is spelled out, and yet the empty one takes its place. -/
theorem ofText_taggedNumber :
    SpelledOut taggedNumber (.object [(Reader.tag, .number "1")]) ∧
      ofText taggedNumber ≠ ⟨Json.settled (.object [(Reader.tag, .number "1")]), []⟩ ∧
      (ofText taggedNumber).value.compact = "\x7b\x7d".toList ∧
      (ofText taggedNumber).events = [.replaced .mistyped ⟨1, 33⟩] := by
  have hevents : (ofText taggedNumber).events = [.replaced .mistyped ⟨1, 33⟩] := by decide +kernel
  have hspelled : SpelledOut taggedNumber (.object [(Reader.tag, .number "1")]) := by
    have hkey := Quoted.Written.mk (inside_escaped Reader.tag.toList)
    have hobject := @Verbatim.object [⟨[], _, [], Reader.tag, [], ['1'], [], .number "1"⟩] (List.cons_ne_nil _ _)
      (List.forall_mem_singleton.2 ⟨isGap_nil, hkey, isGap_nil⟩)
      (List.forall_mem_singleton.2 ⟨isGap_nil, isGap_nil⟩) (List.forall_mem_singleton.2 (.number written_one))
    exact ⟨⟨[], _, [], _⟩, ⟨isGap_nil, isGap_nil⟩, hobject, by decide +kernel, rfl⟩
  refine ⟨hspelled, fun h => ?_, by decide +kernel, hevents⟩
  rw [h] at hevents
  cases hevents

end TypeSketch.Example
