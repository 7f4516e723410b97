import TypeSketch.Proofs.Json.Refusal

/-! Objects with a quoted text under the tag. Wherever in a JSON text such an object stands, it is the number that its
content is when that stands there itself; if the content is no numeral it is refused, and so is any second member. -/
namespace TypeSketch

namespace Json

def Member.alone (member : Member) : List Char := '{' :: member.written ++ ['}']

/-- What stands around a value in a JSON text: gaps, or the rest of an array or an object and what stands around that.
Of the place itself only the gaps and the key count. -/
inductive Surroundings where
  | gaps (place : Element) (here : place.Gaps)
  | array (outer : Surroundings) (left : List Element) (place : Element) (right : List Element) (here : place.Gaps)
      (gaps : ∀ element ∈ left ++ right, element.Gaps)
      (written : ∀ element ∈ left ++ right, Written element.text element.value)
  | object (outer : Surroundings) (left : List Member) (place : Member) (right : List Member)
      (untagged : ((left ++ place :: right).map Member.key).head? ≠ some Reader.tag)
      (key : place.Keyed) (here : place.element.Gaps)
      (keyed : ∀ member ∈ left ++ right, member.Keyed) (gaps : ∀ member ∈ left ++ right, member.element.Gaps)
      (written : ∀ member ∈ left ++ right, Written member.element.text member.element.value)

namespace Surroundings

def fill : Surroundings → List Char → List Char
  | gaps place _, text => { place with text }.written
  | array outer left place right _ _ _, text =>
    outer.fill ('[' :: commaSeparated ((left ++ { place with text } :: right).map Element.written) ++ [']'])
  | object outer left place right _ _ _ _ _ _, text =>
    outer.fill ('{' :: commaSeparated ((left ++ { place with element.text := text } :: right).map Member.written) ++ ['}'])

def plug : Surroundings → Json → Json
  | gaps _ _, value => value
  | array outer left _ right _ _ _, value =>
    outer.plug (.array (left.map Element.value ++ value :: right.map Element.value))
  | object outer left place right _ _ _ _ _ _, value =>
    outer.plug (.object (Members.merged (left.map Member.entry ++ (place.key, value) :: right.map Member.entry)))

private theorem forall_mem_insert {α : Type} {p : α → Prop} {left right : List α} (h : ∀ a ∈ left ++ right, p a) {a : α}
    (ha : p a) : ∀ b ∈ left ++ a :: right, p b := by
  obtain ⟨hl, hr⟩ := List.forall_mem_append.1 h
  exact List.forall_mem_append.2 ⟨hl, List.forall_mem_cons.2 ⟨ha, hr⟩⟩

/-- With a text of the grammar in the place the whole is one, and denotes the value with that value in the place. -/
theorem isText_fill (around : Surroundings) {text : List Char} {value : Json} (h : Written text value) :
    IsText (around.fill text) (around.plug value) := by
  induction around generalizing text value with
  | gaps place here => exact ⟨{ place with text, value }, here, h, rfl, rfl⟩
  | array outer left place right here gaps written ih =>
    have harray := @Written.array (left ++ { place with text, value } :: right) (by simp) (forall_mem_insert gaps here)
      (forall_mem_insert written h)
    rw [List.map_append, List.map_cons, List.map_append, List.map_cons] at harray
    rw [fill, plug, List.map_append, List.map_cons]
    exact ih harray
  | object outer left place right untagged key here keyed gaps written ih =>
    have hobject := @Written.object (left ++ { place with element.text := text, element.value := value } :: right)
      (by simp) (by simpa using untagged) (forall_mem_insert keyed key) (forall_mem_insert gaps here)
      (forall_mem_insert written h)
    rw [List.map_append, List.map_cons, List.map_append, List.map_cons] at hobject
    rw [fill, plug, List.map_append, List.map_cons]
    exact ih hobject

end Surroundings

end Json

namespace Reader
open Json

/-- A text that is refused is refused in all surroundings. -/
theorem refuses_fill (around : Surroundings) {text : List Char} (hb : Begins text) (h : IsRefused text) :
    Refuses start (around.fill text) := by
  induction around generalizing text with
  | gaps place here => exact @refuses_element { place with text } here h [] trivial
  | array outer left place right here gaps written ih =>
    have hgaps : ∀ element ∈ left ++ { place with text } :: right, element.Gaps := Surroundings.forall_mem_insert gaps here
    have hbegins : ∀ element ∈ left ++ right, Begins element.text := by
      intro element he
      exact begins_written (written element he)
    have hread : ∀ element ∈ left ++ right, (∃ value, IsRead element.text value) ∨ IsRefused element.text := by
      intro element he
      exact .inl ⟨_, isRead_of_written (written element he)⟩
    apply ih ⟨_, _, rfl, by decide⟩
    apply isRefused_array (by simp) hgaps (Surroundings.forall_mem_insert hbegins hb)
      (Surroundings.forall_mem_insert hread (.inr h))
    exact ⟨{ place with text }, List.mem_append_right left List.mem_cons_self, h⟩
  | object outer left place right untagged key here keyed gaps written ih =>
    have hkeyed : ∀ member ∈ left ++ { place with element.text := text } :: right, member.Keyed :=
      Surroundings.forall_mem_insert keyed key
    have hread : ∀ member ∈ left ++ right, (∃ value, IsRead member.element.text value) ∨ IsRefused member.element.text := by
      intro member hm
      exact .inl ⟨_, isRead_of_written (written member hm)⟩
    apply ih ⟨_, _, rfl, by decide⟩
    apply isRefused_object (by simp) hkeyed
    intro frames
    apply Refuses.append
    apply refuses_members hkeyed (Surroundings.forall_mem_insert gaps here) (Surroundings.forall_mem_insert hread (.inr h))
    · exact ⟨{ place with element.text := text }, List.mem_append_right left List.mem_cons_self, h⟩
    · intro _
      simpa using untagged

variable {member : Member} {content : List Char}

/-- Behind an opening brace and the tag comes what is quoted. -/
theorem feed_tagged (tag : member.key = Reader.tag) (keyed : member.Keyed) (gaps : member.element.Gaps)
    {frames : List Frame} (hu : Untagged frames) (back : List Char) :
    feed ⟨frames, .value⟩ (Utf8.encode ('{' :: member.written ++ back)) =
      feed ⟨.tagged :: frames, .value⟩ (Utf8.encode (member.element.text ++ (member.element.after ++ back))) := by
  have hfirst := @feed_firstKey [member] (List.cons_ne_nil _ _) (List.forall_mem_singleton.2 keyed) frames back
  rw [List.map_singleton, commaSeparated_singleton] at hfirst
  calc feed ⟨frames, .value⟩ (Utf8.encode ('{' :: member.written ++ back))
      = feed ⟨frames, .firstKey⟩ (Utf8.encode (member.written ++ back)) := (Reads.openObject hu).feed _
    _ = feed ⟨frames, .nextKey []⟩ (Utf8.encode (member.written ++ back)) := hfirst
    _ = _ := feed_tag tag keyed gaps frames back

/-- An object whose only member has the tag and no numeral is refused. -/
theorem isRefused_alone (tag : member.key = Reader.tag) (keyed : member.Keyed) (gaps : member.element.Gaps)
    (quoted : Quoted.Written member.element.text content) (hn : ¬ ∃ kept, Numeral.Written content kept) :
    IsRefused member.alone := by
  intro frames hu
  rw [Refuses, Member.alone, feed_tagged tag keyed gaps hu]
  exact (refuses_quoted quoted hn).append (member.element.after ++ ['}'])

/-- An object that has the tag in front and goes on behind its member is refused. -/
theorem isRefused_second (tag : member.key = Reader.tag) (keyed : member.Keyed) (gaps : member.element.Gaps)
    (quoted : Quoted.Written member.element.text content) : IsRefused ('{' :: member.written ++ [',']) := by
  intro frames hu
  rw [Refuses, feed_tagged tag keyed gaps hu]
  by_cases hn : ∃ kept, Numeral.Written content kept
  · obtain ⟨kept, hk⟩ := hn
    exact refuses_second quoted hk gaps.2
  · exact (refuses_quoted quoted hn).append (member.element.after ++ [','])

end Reader

namespace Example
open Json

/-- Behind a text that is refused nothing helps. -/
theorem ofText_of_refuses {text : List Char} (h : Reader.start.Refuses text) (more : List UInt8) :
    ∃ category place, ofText (Utf8.encode text ++ more) = ⟨.object [], [.replaced category place]⟩ := by
  obtain ⟨fault, hf⟩ := h
  have hread : Json.read (Utf8.encode text ++ more) = .error { fault with left := fault.left ++ more } := by
    rw [Json.read, Reader.feed_append, hf]
    rfl
  exact ⟨_, _, ofText_of_error hread⟩

/-- In all surroundings a text of the grammar is read, as what it denotes. -/
theorem ofText_fill (around : Surroundings) {text : List Char} {value : Json} (h : Written text value) :
    ofText (Utf8.encode (around.fill text)) = ⟨around.plug value, []⟩ :=
  ofText_eq_pure_iff.2 (read_of_denoted ⟨_, rfl, around.isText_fill h⟩)

/-- An object with one member, under the tag and with a quoted content. In all surroundings it is read just if the content
is a numeral, and then it is the number that this numeral is in its place, as it is kept there. If it is none, it is
mistyped; and whatever the content is, nothing is read that goes on with a comma. -/
theorem ofText_alone {member : Member} {content : List Char} (tag : member.key = Reader.tag) (keyed : member.Keyed)
    (gaps : member.element.Gaps) (quoted : Quoted.Written member.element.text content) :
    (∀ around : Surroundings,
      (ofText (Utf8.encode (around.fill member.alone))).events = [] ↔ ∃ kept, Numeral.Written content kept) ∧
    (∀ kept, Numeral.Written content kept →
      ofText (Utf8.encode content) = ⟨.number (String.ofList kept), []⟩ ∧
      ∀ around : Surroundings,
        ofText (Utf8.encode (around.fill member.alone)) = ⟨around.plug (.number (String.ofList kept)), []⟩ ∧
        ofText (Utf8.encode (around.fill content)) = ⟨around.plug (.number (String.ofList kept)), []⟩) ∧
    ((¬ ∃ kept, Numeral.Written content kept) → ∀ before after : List Char, IsGap before →
      ∃ place, ofText (Utf8.encode (before ++ member.alone ++ after)) = ⟨.object [], [.replaced .mistyped place]⟩) ∧
    ∀ before : List Char, IsGap before → ∀ more : List UInt8, ∃ category place,
      ofText (Utf8.encode (before ++ ('{' :: member.written ++ [','])) ++ more) =
        ⟨.object [], [.replaced category place]⟩ := by
  have hobject {kept : List Char} (hk : Numeral.Written content kept) :
      Written member.alone (.number (String.ofList kept)) := .tagged tag keyed gaps quoted hk
  have hgap {before : List Char} (hb : IsGap before) : Reader.start.Reads before Reader.start :=
    @Reader.Reads.gap Reader.start trivial _ hb
  have hu : Reader.Untagged [] := trivial
  refine ⟨fun around => ⟨fun h => ?_, fun ⟨kept, hk⟩ => ?_⟩, fun kept hk => ⟨?_, fun around => ?_⟩,
    fun hn before after hb => ?_, fun before hb more => ?_⟩
  · by_contra hn
    have hbegins : Reader.Begins member.alone := ⟨_, _, rfl, by decide⟩
    have hfilled := Reader.refuses_fill around hbegins (Reader.isRefused_alone tag keyed gaps quoted hn)
    obtain ⟨category, place, hr⟩ := ofText_of_refuses hfilled []
    rw [List.append_nil] at hr
    rw [hr] at h
    cases h
  · rw [ofText_fill around (hobject hk)]
  · have hplain := ofText_fill (.gaps ⟨[], [], [], .null⟩ ⟨isGap_nil, isGap_nil⟩) (.number hk)
    simpa [Surroundings.fill, Surroundings.plug, Element.written] using hplain
  · exact ⟨ofText_fill around (hobject hk), ofText_fill around (.number hk)⟩
  · obtain ⟨place, left, hf⟩ := Reader.feed_notNumeral quoted hn [] (member.element.after ++ '}' :: after)
    have hfeed := ((hgap hb).feed ('{' :: member.written ++ '}' :: after)).trans
      ((Reader.feed_tagged tag keyed gaps hu ('}' :: after)).trans hf)
    have hread : Json.read (Utf8.encode (before ++ member.alone ++ after)) = .error ⟨.notNumeral place, left⟩ := by
      rw [Json.read, Member.alone, List.append_assoc, List.append_assoc, List.singleton_append, hfeed]
      rfl
    exact ⟨_, ofText_of_error hread⟩
  · exact ofText_of_refuses ((hgap hb).refuses (Reader.isRefused_second tag keyed gaps quoted [] hu)) more

/-- A member whose key is the tag with an escape in front, and its value has this text. -/
def escapedTag (text : List Char) : Member :=
  ⟨[' '], '"' :: (['\\', 'u', '0', '0', '2', '4'] ++ Reader.tag.toList.tail.flatMap escaped) ++ ['"'], ['\t'], Reader.tag,
    [], text, ['\n'], .null⟩

private theorem keyed_escapedTag (text : List Char) : (escapedTag text).Keyed := by
  have hdollar : Quoted.Escape ['\\', 'u', '0', '0', '2', '4'] '$' :=
    .unit (.mk (.decimal (n := 0) (by decide)) (.decimal (n := 0) (by decide)) (.decimal (n := 2) (by decide))
      (.decimal (n := 4) (by decide)))
  have htag : '$' :: Reader.tag.toList.tail = Reader.tag.toList := by decide
  have hinside := Quoted.Inside.cons (.escape hdollar) (inside_escaped Reader.tag.toList.tail)
  rw [htag] at hinside
  exact ⟨by simp [escapedTag, IsGap], .mk hinside, by simp [escapedTag, IsGap]⟩

private theorem gaps_escapedTag (text : List Char) : (escapedTag text).element.Gaps :=
  ⟨isGap_nil, by simp [escapedTag, IsGap]⟩

def besideEmpty : Surroundings :=
  .array (.gaps ⟨[' '], [], [], .null⟩ ⟨by simp [IsGap], isGap_nil⟩) [⟨[], ['[', ']'], [], .array []⟩] ⟨[], [], [], .null⟩ []
    ⟨isGap_nil, isGap_nil⟩ (List.forall_mem_singleton.2 ⟨isGap_nil, isGap_nil⟩)
    (List.forall_mem_singleton.2 (.emptyArray isGap_nil))

/-- A numeral with an escape in it, in an array, and a text that is none, alone and with a comma behind it. -/
theorem ofText_alone_escapedTag :
    (∀ text, (escapedTag text).key = Reader.tag ∧ (escapedTag text).Keyed ∧ (escapedTag text).element.Gaps) ∧
    (Quoted.Written ['"', '1', '\\', 'u', '0', '0', '4', '5', '5', '"'] ['1', 'E', '5'] ∧
      Numeral.Written ['1', 'E', '5'] ['1', 'e', '+', '5'] ∧
      ofText (Utf8.encode
        (besideEmpty.fill (escapedTag ['"', '1', '\\', 'u', '0', '0', '4', '5', '5', '"']).alone)) =
          ⟨.array [.array [], .number "1e+5"], []⟩) ∧
    (Quoted.Written ['"', '0', '0', '"'] ['0', '0'] ∧ (¬ ∃ kept, Numeral.Written ['0', '0'] kept) ∧
      ∃ place, ofText (Utf8.encode (escapedTag ['"', '0', '0', '"']).alone) =
        ⟨.object [], [.replaced .mistyped place]⟩) ∧
    ∃ category place, ofText (Utf8.encode ('{' :: (escapedTag ['"', '0', '0', '"']).written ++ [',']) ++ [125]) =
      ⟨.object [], [.replaced category place]⟩ := by
  have hcapital : Quoted.Escape ['\\', 'u', '0', '0', '4', '5'] 'E' :=
    .unit (.mk (.decimal (n := 0) (by decide)) (.decimal (n := 0) (by decide)) (.decimal (n := 4) (by decide))
      (.decimal (n := 5) (by decide)))
  have hraw {c : Char} (hc : 0x20 ≤ c.toNat ∧ c ≠ '"' ∧ c ≠ '\\') : Quoted.Spelling [c] c := .raw hc.1 hc.2.1 hc.2.2
  have hescaped : Quoted.Written ['"', '1', '\\', 'u', '0', '0', '4', '5', '5', '"'] ['1', 'E', '5'] :=
    .mk (.cons (hraw (by decide)) (.cons (.escape hcapital) (.cons (hraw (by decide)) .nil)))
  have hnumeral : Numeral.Written ['1', 'E', '5'] ['1', 'e', '+', '5'] :=
    @Numeral.Written.mk [] ['1'] [] ['E', '5'] _ (.inl rfl) (.digits (by simp [Numeral.Digits]) (by decide)) .absent
      (.unsigned (.inr rfl) (by simp [Numeral.Digits]))
  have hzeros : Quoted.Written ['"', '0', '0', '"'] ['0', '0'] :=
    .mk (.cons (hraw (by decide)) (.cons (hraw (by decide)) .nil))
  have hnone : ¬ ∃ kept, Numeral.Written ['0', '0'] kept := by
    rw [← Numeral.fault?_eq_none_iff_written]
    decide
  obtain ⟨-, hread, -, -⟩ := ofText_alone rfl (keyed_escapedTag _) (gaps_escapedTag _) hescaped
  obtain ⟨-, -, hrefused, hsecond⟩ := ofText_alone rfl (keyed_escapedTag _) (gaps_escapedTag _) hzeros
  have hplace := hrefused hnone [] [] isGap_nil
  rw [List.nil_append, List.append_nil] at hplace
  exact ⟨fun text => ⟨rfl, keyed_escapedTag text, gaps_escapedTag text⟩,
    ⟨hescaped, hnumeral, ((hread _ hnumeral).2 besideEmpty).1⟩, ⟨hzeros, hnone, hplace⟩, hsecond [] isGap_nil [125]⟩

end Example

end TypeSketch
