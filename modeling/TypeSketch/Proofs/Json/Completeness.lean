import TypeSketch.Proofs.Json.Members
import TypeSketch.Proofs.Json.Numeral
import TypeSketch.Proofs.Json.Quoted

/-! What the grammar derives is read, and to the value that it denotes there. A numeral is complete only by
what follows it, so a value is either behind the reader or a complete numeral that the reader is in. -/
namespace TypeSketch.Reader
open Json

def Reads (reader : Reader) (text : List Char) (next : Reader) : Prop :=
  reader.feed (Utf8.encode text) = .ok next

theorem Reads.refl (reader : Reader) : Reads reader [] reader := rfl

/-- A text behind another one leads on from where that one leads. -/
theorem Reads.trans {first second third : Reader} {front back : List Char} (hf : Reads first front second)
    (hb : Reads second back third) : Reads first (front ++ back) third := by
  rw [Reads, Utf8.encode_append, feed_append, hf]
  exact hb

/-- A character below 128 is read in one step. -/
theorem Reads.char {reader next : Reader} {c : Char} (hc : c.toNat < 0x80)
    (h : reader.step (UInt8.ofNat c.toNat) = .ok next) : Reads reader [c] next := by
  rw [Reads, Utf8.encode_cons, Utf8.encodeChar_of_lt hc]
  simp only [Utf8.encode_nil, List.append_nil, feed, h]

theorem isSpace_iff {c : Char} : isSpace c ↔ c = ' ' ∨ c = '\t' ∨ c = '\n' ∨ c = '\r' := by
  simp only [isSpace, Bool.or_eq_true, decide_eq_true_eq]
  grind

theorem ascii_of_isSpace {c : Char} (h : isSpace c) : c.toNat < 0x80 := by
  rcases isSpace_iff.1 h with rfl | rfl | rfl | rfl <;> decide

def Place.Skips : Place → Prop
  | .value | .firstElement | .firstKey | .nextKey _ | .colon _ _ | .closeTagged _ | .behind _ => True
  | .word _ _ _ | .numeral _ _ | .quoted _ _ => False

/-- Where space is skipped, a space leaves the reader as it is. -/
theorem step_space {reader : Reader} (h : reader.place.Skips) {byte : UInt8} (hs : isSpace (Char.ofUInt8 byte)) :
    reader.step byte = .ok reader := by
  obtain ⟨frames, place⟩ := reader
  cases place with
  | word _ _ _ | numeral _ _ | quoted _ _ => cases h
  | _ => simp only [step, afterSpace, hs, if_true]

/-- Where space is skipped, so is a whole gap. -/
theorem Reads.gap {reader : Reader} (h : reader.place.Skips) {gap : List Char} (hg : IsGap gap) :
    Reads reader gap reader := by
  induction gap with
  | nil => exact .refl reader
  | cons c gap ih =>
    obtain ⟨hc, hg⟩ := List.forall_mem_cons.1 hg
    have hs : isSpace c := isSpace_iff.2 hc
    have hstep : Reads reader [c] reader :=
      .char (ascii_of_isSpace hs) (step_space h (by rw [Utf8.ofUInt8_ofNat (ascii_of_isSpace hs)]; exact hs))
    exact hstep.trans (ih hg)

/-- Where a quoted text goes on the reader goes on with it. -/
theorem feed_quoted {text next : Quoted} {bytes : List UInt8} (h : text.feed bytes = some next)
    (frames : List Frame) (use : Use) :
    feed ⟨frames, .quoted use text⟩ bytes = .ok ⟨frames, .quoted use next⟩ := by
  induction bytes generalizing text with
  | nil =>
    cases h
    rfl
  | cons byte bytes ih =>
    simp only [Quoted.feed] at h
    cases hn : text.next byte with
    | more behind =>
      rw [hn] at h
      simp only [feed, step, hn]
      exact ih h
    | closes content | refused =>
      rw [hn] at h
      cases h

/-- What is written inside a quoted text is read as its content. -/
theorem Reads.content {text content : List Char} (h : Quoted.Inside text content) (frames : List Frame) (use : Use) :
    Reads ⟨frames, .quoted use .opened⟩ text ⟨frames, .quoted use ⟨(Utf8.encode content).reverse, .plain⟩⟩ := by
  have hf := h.feed []
  rw [List.append_nil] at hf
  exact feed_quoted hf frames use

/-- The closing quote completes what was gathered. -/
theorem step_closingQuote (frames : List Frame) (use : Use) (content : List Char) :
    step ⟨frames, .quoted use ⟨(Utf8.encode content).reverse, .plain⟩⟩ (UInt8.ofNat '"'.toNat) =
      completeQuoted frames use (Utf8.encode content) := by
  have hn (read : List UInt8) : Quoted.next ⟨read, .plain⟩ 34 = .closes read.reverse := rfl
  simp only [step, show UInt8.ofNat '"'.toNat = 34 from rfl, hn, List.reverse_reverse]

/-- A quoted text is read from behind its opening quote to where its content is complete. -/
theorem Reads.inside {text content : List Char} (h : Quoted.Inside text content) {frames : List Frame} {use : Use}
    {next : Reader} (hc : completeQuoted frames use (Utf8.encode content) = .ok next) :
    Reads ⟨frames, .quoted use .opened⟩ (text ++ ['"']) next := by
  refine (Reads.content h frames use).trans (.char (by decide) ?_)
  rw [step_closingQuote, hc]

/-- No tagged numeral is open at the innermost place. -/
def Untagged : List Frame → Prop
  | .tagged :: _ => False
  | _ => True

/-- Outside of a tagged numeral any value can be complete. -/
theorem complete_untagged {frames : List Frame} (h : Untagged frames) (value : Json) (counted : Bool) :
    complete frames value counted = .ok ⟨frames, .behind value⟩ := by
  match frames, h with
  | [], _ | .element _ :: _, _ | .member _ _ :: _, _ => rfl

/-- Outside of a tagged numeral arrays and objects can begin. -/
theorem openValue_untagged {frames : List Frame} (h : Untagged frames) (place : Place) :
    openValue frames place = .ok ⟨frames, place⟩ := by
  match frames, h with
  | [], _ | .element _ :: _, _ | .member _ _ :: _, _ => rfl

/-- The opening bracket of an array, where a value must come. -/
theorem Reads.openArray {frames : List Frame} (h : Untagged frames) :
    Reads ⟨frames, .value⟩ ['['] ⟨frames, .firstElement⟩ :=
  .char (by decide) (openValue_untagged h .firstElement)

/-- The opening brace of an object, where a value must come. -/
theorem Reads.openObject {frames : List Frame} (h : Untagged frames) :
    Reads ⟨frames, .value⟩ ['{'] ⟨frames, .firstKey⟩ :=
  .char (by decide) (openValue_untagged h .firstKey)

/-- The opening quote of a text that is a value, behind the tag too. -/
theorem Reads.openQuoted (frames : List Frame) :
    Reads ⟨frames, .value⟩ ['"'] ⟨frames, .quoted .value .opened⟩ :=
  .char (by decide) rfl

/-- Outside of a tagged numeral a quoted text is a value of its own. -/
theorem completeQuoted_value {frames : List Frame} (h : Untagged frames) (content : List Char) :
    completeQuoted frames .value (Utf8.encode content) = .ok ⟨frames, .behind (.string (String.ofList content))⟩ := by
  rw [completeQuoted, Utf8.decode_encode]
  match frames, h with
  | [], _ | .element _ :: _, _ | .member _ _ :: _, _ => rfl

/-- A quoted key awaits its colon. -/
theorem completeQuoted_key (frames : List Frame) (before : Members) (content : List Char) :
    completeQuoted frames (.key before) (Utf8.encode content) =
      .ok ⟨frames, .colon before (String.ofList content)⟩ := by
  rw [completeQuoted, Utf8.decode_encode]

/-- A value is complete, or will be by what follows it. -/
inductive Ends (frames : List Frame) (value : Json) : Reader → Prop
  | behind : Ends frames value ⟨frames, .behind value⟩
  | numeral {stage : Numeral.Stage} {read : List Char} (complete : stage.isComplete)
      (denotes : number read.reverse = value) : Ends frames value ⟨frames, .numeral stage read⟩

/-- Outside of all arrays and objects a value may end the text. -/
theorem Ends.finish {value : Json} {reader : Reader} (h : Ends [] value reader) : reader.finish = .ok value := by
  cases h with
  | behind => rfl
  | numeral complete denotes => simp only [Reader.finish, complete, if_true, denotes]

/-- Space, a comma and the closing brackets end a numeral. -/
theorem next_ends {stage : Numeral.Stage} (h : stage.isComplete) {c : Char}
    (hc : c = ' ' ∨ c = '\t' ∨ c = '\n' ∨ c = '\r' ∨ c = ',' ∨ c = ']' ∨ c = '}') : stage.next c = .ends := by
  cases stage with
  | minus | point | mark | sign => cases h
  | zero | whole | fraction | power => rcases hc with rfl | rfl | rfl | rfl | rfl | rfl | rfl <;> rfl

/-- What ends a numeral is read as it is behind a complete value. -/
theorem Ends.step {frames : List Frame} (ht : Untagged frames) {value : Json} {reader : Reader}
    (h : Ends frames value reader) {c : Char}
    (hc : c = ' ' ∨ c = '\t' ∨ c = '\n' ∨ c = '\r' ∨ c = ',' ∨ c = ']' ∨ c = '}') :
    reader.step (UInt8.ofNat c.toNat) = Reader.step ⟨frames, .behind value⟩ (UInt8.ofNat c.toNat) := by
  cases h with
  | behind => rfl
  | @numeral stage read complete denotes =>
    have hlt : c.toNat < 0x80 := by rcases hc with rfl | rfl | rfl | rfl | rfl | rfl | rfl <;> decide
    subst denotes
    simp only [Reader.step, Utf8.ofUInt8_ofNat hlt, next_ends complete hc, complete_untagged ht]
    rfl

/-- A gap leaves a value complete. -/
theorem Ends.gap {frames : List Frame} (ht : Untagged frames) {value : Json} {reader : Reader}
    (h : Ends frames value reader) {gap : List Char} (hg : IsGap gap) :
    ∃ next, Reads reader gap next ∧ Ends frames value next := by
  cases gap with
  | nil => exact ⟨reader, .refl reader, h⟩
  | cons space gap =>
    obtain ⟨hs, hg⟩ := List.forall_mem_cons.1 hg
    have hspace : isSpace space := isSpace_iff.2 hs
    have hstep : Reads reader [space] ⟨frames, .behind value⟩ := by
      refine .char (ascii_of_isSpace hspace) ?_
      rw [h.step ht (by rcases hs with rfl | rfl | rfl | rfl <;> simp)]
      refine @step_space ⟨frames, .behind value⟩ trivial _ ?_
      rwa [Utf8.ofUInt8_ofNat (ascii_of_isSpace hspace)]
    exact ⟨_, hstep.trans (@Reads.gap ⟨frames, .behind value⟩ trivial _ hg), .behind⟩

/-- Behind a value come a gap and a character that goes on from there. -/
theorem Ends.reads {frames : List Frame} (ht : Untagged frames) {value : Json} {reader next : Reader}
    (h : Ends frames value reader) {gap : List Char} (hg : IsGap gap) {c : Char} (hc : c = ',' ∨ c = ']' ∨ c = '}')
    (hn : Reader.step ⟨frames, .behind value⟩ (UInt8.ofNat c.toNat) = .ok next) : Reads reader (gap ++ [c]) next := by
  obtain ⟨behind, hr, he⟩ := h.gap ht hg
  have hlt : c.toNat < 0x80 := by rcases hc with rfl | rfl | rfl <;> decide
  exact hr.trans (.char hlt (by rw [he.step ht (by simp [hc]), hn]))

private theorem feed_numeral {stage last : Numeral.Stage} {text : List Char} (ha : ∀ c ∈ text, c.toNat < 0x80)
    (h : Numeral.reachFrom stage text = some last) (frames : List Frame) (read : List Char) :
    Reads ⟨frames, .numeral stage read⟩ text ⟨frames, .numeral last (text.reverse ++ read)⟩ := by
  induction text generalizing stage read with
  | nil =>
    cases h
    exact .refl _
  | cons c text ih =>
    rw [List.forall_mem_cons] at ha
    simp only [Numeral.reachFrom] at h
    split at h
    · rename_i next hc
      have hstep : Reads ⟨frames, .numeral stage read⟩ [c] ⟨frames, .numeral next (c :: read)⟩ :=
        .char ha.1 (by simp only [step, Utf8.ofUInt8_ofNat ha.1, hc])
      have hrest := hstep.trans (ih ha.2 h (c :: read))
      simpa using hrest
    · cases h
    · cases h

private theorem beginValue_numeral {c : Char} {stage : Numeral.Stage} (h : Numeral.start? c = some stage)
    (frames : List Frame) : beginValue frames c = .ok ⟨frames, .numeral stage [c]⟩ := by
  unfold beginValue
  split
  case h_7 => rw [h]
  all_goals cases h

private theorem not_isSpace_numeral {c : Char} {stage : Numeral.Stage} (h : Numeral.start? c = some stage) :
    ¬ isSpace c := by
  intro hs
  rcases isSpace_iff.1 hs with rfl | rfl | rfl | rfl <;> cases h

/-- A numeral of the grammar is read to where it may end. -/
theorem Reads.numeral {text kept : List Char} (h : Numeral.Written text kept) (frames : List Frame) :
    ∃ reader, Reads ⟨frames, .value⟩ text reader ∧ Ends frames (.number (String.ofList kept)) reader := by
  obtain ⟨last, hr, hc⟩ := h.reaches
  cases text with
  | nil => cases hr
  | cons c rest =>
    obtain ⟨stage, hs, hr⟩ := Option.bind_eq_some_iff.1 hr
    have ha := h.ascii
    rw [List.forall_mem_cons] at ha
    have hstart : Reads ⟨frames, .value⟩ [c] ⟨frames, .numeral stage [c]⟩ := by
      refine .char ha.1 ?_
      rw [step, Utf8.ofUInt8_ofNat ha.1]
      simp only [afterSpace, if_neg (not_isSpace_numeral hs), beginValue_numeral hs]
    refine ⟨_, hstart.trans (feed_numeral ha.2 hr frames [c]), .numeral hc ?_⟩
    simp only [number, List.reverse_append, List.reverse_reverse, List.reverse_singleton, List.singleton_append,
      h.stored]

private theorem reads_letters {frames : List Frame} (ht : Untagged frames) (value : Json) {letter : Char}
    {letters : List Char} (ha : ∀ c ∈ letter :: letters, c.toNat < 0x80) :
    Reads ⟨frames, .word letter letters value⟩ (letter :: letters) ⟨frames, .behind value⟩ := by
  induction letters generalizing letter with
  | nil =>
    have hl := ha letter (List.mem_singleton_self letter)
    exact .char hl (by simp only [step, Utf8.ofUInt8_ofNat hl, ne_eq, not_true, if_false, complete_untagged ht])
  | cons next letters ih =>
    obtain ⟨hl, ha⟩ := List.forall_mem_cons.1 ha
    have hstep : Reads ⟨frames, .word letter (next :: letters) value⟩ [letter] ⟨frames, .word next letters value⟩ :=
      .char hl (by simp only [step, Utf8.ofUInt8_ofNat hl, ne_eq, not_true, if_false])
    exact hstep.trans (ih ha)

private theorem reads_word {frames : List Frame} (ht : Untagged frames) {value : Json} {first letter : Char}
    {letters : List Char} (hf : Reads ⟨frames, .value⟩ [first] ⟨frames, .word letter letters value⟩)
    (ha : ∀ c ∈ letter :: letters, c.toNat < 0x80) :
    ∃ reader, Reads ⟨frames, .value⟩ (first :: letter :: letters) reader ∧ Ends frames value reader :=
  ⟨_, hf.trans (reads_letters ht value ha), .behind⟩

private theorem reads_quoted {frames : List Frame} (ht : Untagged frames) {text content : List Char}
    (h : Quoted.Written text content) :
    Reads ⟨frames, .value⟩ text ⟨frames, .behind (.string (String.ofList content))⟩ := by
  obtain ⟨hi⟩ := h
  exact (Reads.openQuoted frames).trans (.inside hi (completeQuoted_value ht content))

/-- Two places that skip space and do the same at the first character behind it do the same. -/
theorem feed_congr {first second : Reader} (hf : first.place.Skips) (hs : second.place.Skips) {gap : List Char}
    (hg : IsGap gap) {c : Char} (hc : c.toNat < 0x80)
    (h : first.step (UInt8.ofNat c.toNat) = second.step (UInt8.ofNat c.toNat)) (rest : List Char) :
    first.feed (Utf8.encode (gap ++ c :: rest)) = second.feed (Utf8.encode (gap ++ c :: rest)) := by
  have hfg : first.feed (Utf8.encode gap) = .ok first := Reads.gap hf hg
  have hsg : second.feed (Utf8.encode gap) = .ok second := Reads.gap hs hg
  rw [Utf8.encode_append, feed_append, feed_append, hfg, hsg]
  simp only [Utf8.encode_cons, Utf8.encodeChar_of_lt hc, List.singleton_append, feed, h]

/-- The text begins with a character that is no space and ends no array, as every value does. -/
def Begins (text : List Char) : Prop :=
  ∃ c rest, text = c :: rest ∧ c.toNat < 0x80 ∧ ¬ isSpace c ∧ c ≠ ']'

theorem begins_numeral {text kept : List Char} (h : Numeral.Written text kept) : Begins text := by
  obtain ⟨last, hr, -⟩ := h.reaches
  cases text with
  | nil => cases hr
  | cons c rest =>
    obtain ⟨stage, hs, -⟩ := Option.bind_eq_some_iff.1 hr
    refine ⟨c, rest, rfl, h.ascii c List.mem_cons_self, not_isSpace_numeral hs, ?_⟩
    rintro rfl
    cases hs

theorem begins_quoted {text content : List Char} (h : Quoted.Written text content) : Begins text := by
  obtain ⟨_⟩ := h
  exact ⟨_, _, rfl, by decide, by decide, by decide⟩

/-- Every value of the grammar begins so. -/
theorem begins_written {text : List Char} {value : Json} (h : Written text value) : Begins text := by
  cases h with
  | null | true | false | emptyArray | array | emptyObject | object | tagged =>
    exact ⟨_, _, rfl, by decide, by decide, by decide⟩
  | string h => exact begins_quoted h
  | number h => exact begins_numeral h

/-- From everywhere but the inside of a tagged numeral the text is read to the end of the value. -/
def IsRead (text : List Char) (value : Json) : Prop :=
  ∀ frames, Untagged frames → ∃ reader, Reads ⟨frames, .value⟩ text reader ∧ Ends frames value reader

/-- An element and the character that goes on from behind it. -/
theorem reads_element {element : Element} (hg : element.Gaps) (h : IsRead element.text element.value)
    {frames : List Frame} (ht : Untagged frames) {c : Char} (hc : c = ',' ∨ c = ']' ∨ c = '}') {next : Reader}
    (hn : Reader.step ⟨frames, .behind element.value⟩ (UInt8.ofNat c.toNat) = .ok next) :
    Reads ⟨frames, .value⟩ (element.written ++ [c]) next := by
  obtain ⟨reader, hr, he⟩ := h frames ht
  have hb : Reads ⟨frames, .value⟩ element.before ⟨frames, .value⟩ := @Reads.gap ⟨frames, .value⟩ trivial _ hg.1
  have hread := hb.trans (hr.trans (he.reads ht hg.2 hc hn))
  simpa only [Element.written, List.append_assoc] using hread

private theorem reads_elements {elements : List Element} (hn : elements ≠ [])
    (hg : ∀ element ∈ elements, element.Gaps) (h : ∀ element ∈ elements, IsRead element.text element.value)
    (frames : List Frame) (before : List Json) :
    Reads ⟨.element before :: frames, .value⟩ (commaSeparated (elements.map Element.written) ++ [']'])
      ⟨frames, .behind (.array (before.reverse ++ elements.map Element.value))⟩ := by
  induction elements generalizing before with
  | nil => cases hn rfl
  | cons element elements ih =>
    rw [List.forall_mem_cons] at hg h
    have ht : Untagged (.element before :: frames) := trivial
    cases elements with
    | nil =>
      have hlast : Reads ⟨.element before :: frames, .value⟩ (element.written ++ [']'])
          ⟨frames, .behind (.array (element.value :: before).reverse)⟩ :=
        reads_element hg.1 h.1 ht (c := ']') (by decide) rfl
      simpa [commaSeparated_singleton] using hlast
    | cons second elements =>
      have hfirst : Reads ⟨.element before :: frames, .value⟩ (element.written ++ [','])
          ⟨.element (element.value :: before) :: frames, .value⟩ :=
        reads_element hg.1 h.1 ht (c := ',') (by decide) rfl
      have hrest := ih (List.cons_ne_nil _ _) hg.2 h.2 (element.value :: before)
      rw [List.map_cons, commaSeparated_cons _ (by simp)]
      simpa using hfirst.trans hrest

/-- A key and its colon, up to the member's value. -/
theorem reads_key {member : Member} (hk : member.Keyed) (frames : List Frame) (before : Members) :
    Reads ⟨frames, .nextKey before⟩ (member.before ++ member.text ++ member.after ++ [':'])
      ⟨(if before.isEmpty && member.key = tag then .tagged else .member before member.key) :: frames, .value⟩ := by
  obtain ⟨hb, hw, ha⟩ := hk
  obtain ⟨before', text, after, key, element⟩ := member
  obtain ⟨content, rfl⟩ : ∃ content, key = String.ofList content := ⟨key.toList, String.ofList_toList.symm⟩
  rw [String.toList_ofList] at hw
  obtain @⟨inside, _, hi⟩ := hw
  have hgap : Reads ⟨frames, .nextKey before⟩ before' ⟨frames, .nextKey before⟩ :=
    @Reads.gap ⟨frames, .nextKey before⟩ trivial _ hb
  have hquote : Reads ⟨frames, .nextKey before⟩ ['"'] ⟨frames, .quoted (.key before) .opened⟩ := .char (by decide) rfl
  have hinside := Reads.inside hi (completeQuoted_key frames before content)
  have hafter : Reads ⟨frames, .colon before (String.ofList content)⟩ after _ :=
    @Reads.gap ⟨frames, .colon before (String.ofList content)⟩ trivial _ ha
  have hcolon : Reads ⟨frames, .colon before (String.ofList content)⟩ [':'] _ := .char (by decide) rfl
  simpa using hgap.trans (hquote.trans (hinside.trans (hafter.trans hcolon)))

/-- A member begins no tagged numeral if it is not in front or has another key. -/
theorem not_tagged {member : Member} {members : List Member} {before : Members}
    (h : before = [] → ((member :: members).map Member.key).head? ≠ some tag) :
    ¬ (before.isEmpty && member.key = tag) := by
  simp only [List.isEmpty_iff, Bool.and_eq_true, decide_eq_true_eq, not_and]
  exact fun he ht => h he (congrArg some ht)

/-- A member of an object and the character that goes on from behind it. -/
theorem reads_member {member : Member} (hk : member.Keyed) (hg : member.element.Gaps)
    (h : IsRead member.element.text member.element.value) {frames : List Frame} {before : Members}
    (hu : ¬ (before.isEmpty && member.key = tag)) {c : Char} (hc : c = ',' ∨ c = ']' ∨ c = '}') {next : Reader}
    (hn : Reader.step ⟨.member before member.key :: frames, .behind member.element.value⟩ (UInt8.ofNat c.toNat) =
      .ok next) :
    Reads ⟨frames, .nextKey before⟩ (member.written ++ [c]) next := by
  have hkey := reads_key hk frames before
  rw [if_neg hu] at hkey
  have hread := hkey.trans (@reads_element _ hg h (.member before member.key :: frames) trivial _ hc _ hn)
  simpa [Member.written] using hread

private theorem reads_members {members : List Member} (hn : members ≠ [])
    (hk : ∀ member ∈ members, member.Keyed) (hg : ∀ member ∈ members, member.element.Gaps)
    (h : ∀ member ∈ members, IsRead member.element.text member.element.value) (frames : List Frame)
    {front : Members} (hu : front = [] → (members.map Member.key).head? ≠ some tag) :
    Reads ⟨frames, .nextKey (Members.merged front)⟩ (commaSeparated (members.map Member.written) ++ ['}'])
      ⟨frames, .behind (.object (Members.merged (front ++ members.map Member.entry)))⟩ := by
  induction members generalizing front with
  | nil => cases hn rfl
  | cons member members ih =>
    rw [List.forall_mem_cons] at hk hg h
    have hm : ¬ ((Members.merged front).isEmpty && member.key = tag) :=
      not_tagged fun he => hu (Decidable.byContradiction fun hf => Members.merged_ne_nil hf he)
    have hput : (Members.merged front).put member.key member.element.value = Members.merged (front ++ [member.entry]) :=
      (Members.merged_append front member.key member.element.value).symm
    cases members with
    | nil =>
      have hlast : Reads ⟨frames, .nextKey (Members.merged front)⟩ (member.written ++ ['}'])
          ⟨frames, .behind (.object ((Members.merged front).put member.key member.element.value))⟩ :=
        reads_member hk.1 hg.1 h.1 hm (c := '}') (by decide) rfl
      rw [hput] at hlast
      simpa [commaSeparated_singleton] using hlast
    | cons second members =>
      have hfirst : Reads ⟨frames, .nextKey (Members.merged front)⟩ (member.written ++ [','])
          ⟨frames, .nextKey ((Members.merged front).put member.key member.element.value)⟩ :=
        reads_member hk.1 hg.1 h.1 hm (c := ',') (by decide) rfl
      rw [hput] at hfirst
      have hrest := @ih (List.cons_ne_nil _ _) hk.2 hg.2 h.2 (front ++ [member.entry]) (by simp)
      rw [List.map_cons, commaSeparated_cons _ (by simp)]
      simpa using hfirst.trans hrest

/-- Behind an opening bracket elements are read as they are behind a comma. -/
theorem feed_firstElement {elements : List Element} (hn : elements ≠ []) (hg : ∀ element ∈ elements, element.Gaps)
    (h : ∀ element ∈ elements, Begins element.text) (frames : List Frame) (back : List Char) :
    feed ⟨frames, .firstElement⟩ (Utf8.encode (commaSeparated (elements.map Element.written) ++ back)) =
      feed ⟨.element [] :: frames, .value⟩ (Utf8.encode (commaSeparated (elements.map Element.written) ++ back)) := by
  obtain ⟨element, elements, rfl⟩ := List.exists_cons_of_ne_nil hn
  obtain ⟨c, rest, ht, hc, hs, he⟩ := h element List.mem_cons_self
  obtain ⟨more, hm⟩ := commaSeparated_front element.written (elements.map Element.written)
  have hfront : commaSeparated ((element :: elements).map Element.written) ++ back =
      element.before ++ c :: (rest ++ element.after ++ more ++ back) := by
    rw [List.map_cons, hm, Element.written, ht]
    simp
  rw [hfront]
  refine @feed_congr ⟨frames, .firstElement⟩ ⟨.element [] :: frames, .value⟩ trivial trivial _
    (hg element List.mem_cons_self).1 _ hc ?_ _
  simp only [step, afterSpace, Utf8.ofUInt8_ofNat hc, if_neg hs, if_neg he]

theorem quote_of_quoted {text content : List Char} (h : Quoted.Written text content) : ∃ rest, text = '"' :: rest := by
  obtain ⟨_⟩ := h
  exact ⟨_, rfl⟩

/-- Behind an opening brace a quoted text is read as the key that it is behind a comma. -/
theorem feed_firstQuoted {member : Member} (hb : IsGap member.before) (hq : ∃ rest, member.text = '"' :: rest)
    (members : List Member) (frames : List Frame) (back : List Char) :
    feed ⟨frames, .firstKey⟩ (Utf8.encode (commaSeparated ((member :: members).map Member.written) ++ back)) =
      feed ⟨frames, .nextKey []⟩ (Utf8.encode (commaSeparated ((member :: members).map Member.written) ++ back)) := by
  obtain ⟨rest, hq⟩ := hq
  obtain ⟨more, hm⟩ := commaSeparated_front member.written (members.map Member.written)
  rw [List.map_cons, hm, Member.written, hq]
  simp only [List.append_assoc, List.cons_append]
  exact @feed_congr ⟨frames, .firstKey⟩ ⟨frames, .nextKey []⟩ trivial trivial _ hb _ (by decide) rfl _

/-- Behind an opening brace members are read as they are behind a comma. -/
theorem feed_firstKey {members : List Member} (hn : members ≠ []) (hk : ∀ member ∈ members, member.Keyed)
    (frames : List Frame) (back : List Char) :
    feed ⟨frames, .firstKey⟩ (Utf8.encode (commaSeparated (members.map Member.written) ++ back)) =
      feed ⟨frames, .nextKey []⟩ (Utf8.encode (commaSeparated (members.map Member.written) ++ back)) := by
  obtain ⟨member, members, rfl⟩ := List.exists_cons_of_ne_nil hn
  obtain ⟨hb, ht, -⟩ := hk member List.mem_cons_self
  exact feed_firstQuoted hb (quote_of_quoted ht) members frames back

/-- A quoted numeral closes the value of a tagged one. -/
theorem completeQuoted_tagged {content kept : List Char} (h : Numeral.Written content kept)
    (outer : List Frame) : completeQuoted (.tagged :: outer) .value (Utf8.encode content) =
      .ok ⟨outer, .closeTagged (.number (String.ofList kept))⟩ := by
  rw [completeQuoted, Utf8.decode_encode]
  simp only [Utf8.map_ofUInt8_encode h.ascii, Numeral.fault?_eq_none_iff_written.2 ⟨kept, h⟩, number, h.stored]

private theorem reads_tagged {member : Member} (ht : member.key = tag) (hk : member.Keyed)
    (hg : member.element.Gaps) {content kept : List Char} (hq : Quoted.Written member.element.text content)
    (hn : Numeral.Written content kept) (frames : List Frame) :
    Reads ⟨frames, .nextKey []⟩ (member.written ++ ['}']) ⟨frames, .behind (.number (String.ofList kept))⟩ := by
  have hkey := reads_key hk frames []
  rw [if_pos (by simp [ht])] at hkey
  obtain ⟨before, text, after, key, element⟩ := member
  obtain ⟨before', text', after', value⟩ := element
  obtain @⟨inside, _, hi⟩ := hq
  have hgap : Reads ⟨.tagged :: frames, .value⟩ before' _ := @Reads.gap ⟨.tagged :: frames, .value⟩ trivial _ hg.1
  have hquoted := (Reads.openQuoted (.tagged :: frames)).trans (Reads.inside hi (completeQuoted_tagged hn frames))
  have hafter : Reads ⟨frames, .closeTagged (.number (String.ofList kept))⟩ after' _ :=
    @Reads.gap ⟨frames, .closeTagged (.number (String.ofList kept))⟩ trivial _ hg.2
  have hclose : Reads ⟨frames, .closeTagged (.number (String.ofList kept))⟩ ['}'] _ := .char (by decide) rfl
  simpa [Member.written, Element.written] using
    hkey.trans (hgap.trans (hquoted.trans (hafter.trans hclose)))

/-- Every value of the grammar is read. -/
theorem isRead_of_written {text : List Char} {value : Json} (h : Written text value) : IsRead text value := by
  induction h with
  | null => exact fun frames ht => reads_word ht (.char (by decide) rfl) (by simp)
  | true => exact fun frames ht => reads_word ht (.char (by decide) rfl) (by simp)
  | false => exact fun frames ht => reads_word ht (.char (by decide) rfl) (by simp)
  | number h => exact fun frames _ => Reads.numeral h frames
  | string h => exact fun frames ht => ⟨_, reads_quoted ht h, .behind⟩
  | emptyArray hg =>
    intro frames ht
    have hgap := @Reads.gap ⟨frames, .firstElement⟩ trivial _ hg
    have hclose : Reads ⟨frames, .firstElement⟩ [']'] ⟨frames, .behind (.array [])⟩ := .char (by decide) rfl
    exact ⟨_, (Reads.openArray ht).trans (hgap.trans hclose), .behind⟩
  | array nonempty gaps h ih =>
    intro frames ht
    have helements := reads_elements nonempty gaps ih frames []
    have hbegins := fun element he => begins_written (h element he)
    rw [Reads, ← feed_firstElement nonempty gaps hbegins] at helements
    exact ⟨_, (Reads.openArray ht).trans helements, .behind⟩
  | emptyObject hg =>
    intro frames ht
    have hgap := @Reads.gap ⟨frames, .firstKey⟩ trivial _ hg
    have hclose : Reads ⟨frames, .firstKey⟩ ['}'] ⟨frames, .behind (.object [])⟩ := .char (by decide) rfl
    exact ⟨_, (Reads.openObject ht).trans (hgap.trans hclose), .behind⟩
  | object nonempty untagged keyed gaps h ih =>
    intro frames ht
    have hmembers : Reads ⟨frames, .nextKey []⟩ _ _ := @reads_members _ nonempty keyed gaps ih frames [] fun _ => untagged
    rw [Reads, ← feed_firstKey nonempty keyed] at hmembers
    exact ⟨_, (Reads.openObject ht).trans hmembers, .behind⟩
  | @tagged member content kept tag keyed gaps quoted numeral =>
    intro frames ht
    have hfirst := @feed_firstKey [member] (List.cons_ne_nil _ _) (List.forall_mem_singleton.2 keyed) frames ['}']
    rw [List.map_singleton, commaSeparated_singleton] at hfirst
    have hmember := reads_tagged tag keyed gaps quoted numeral frames
    rw [Reads, ← hfirst] at hmember
    exact ⟨_, (Reads.openObject ht).trans hmember, .behind⟩

end TypeSketch.Reader

namespace TypeSketch.Json

/-- Whatever the grammar denotes is read. -/
theorem read_of_denoted {bytes : List UInt8} {value : Json} (h : Denoted bytes value) : read bytes = .ok value := by
  obtain ⟨text, rfl, element, hg, hw, rfl, rfl⟩ := h
  have hbefore : Reader.start.Reads element.before Reader.start := @Reader.Reads.gap Reader.start trivial _ hg.1
  obtain ⟨reader, hr, he⟩ := Reader.isRead_of_written hw [] trivial
  obtain ⟨last, hl, he⟩ := @Reader.Ends.gap [] trivial _ _ he _ hg.2
  have hread : Reader.start.Reads element.written last := by
    simpa only [Element.written, List.append_assoc] using hbefore.trans (hr.trans hl)
  rw [read, hread]
  exact he.finish

end TypeSketch.Json
