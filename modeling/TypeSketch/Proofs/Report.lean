import TypeSketch.Run
import TypeSketch.Proofs.Guess
import TypeSketch.Proofs.Signature

/-! What a report says. Each of its lines is the text of a type, behind the name of a field if there are fields, and from a
line both can be read off: a report tells two examples apart exactly if their keys or their guesses differ. The codecs in
a line are those of its type, in closed form. -/
namespace TypeSketch

/-- Two values of which a report says the same: the same guess for both, or the same keys with the same guesses. -/
inductive Json.Alike : Json → Json → Prop
  | guesses {first second : Json} (hf : ∀ members, first ≠ .object members) (hs : ∀ members, second ≠ .object members)
      (same : first.signature.value = second.signature.value) : Alike first second
  | fields {first second : Members} (keys : first.keys = second.keys)
      (same : ∀ name, (first.get? name).map (·.signature.value) = (second.get? name).map (·.signature.value)) :
      Alike (.object first) (.object second)

/-- Both are objects or neither is. -/
theorem Json.Alike.isObject {first second : Json} (h : first.Alike second) :
    (∃ members, first = .object members) ↔ ∃ members, second = .object members := by
  cases h with
  | guesses hf hs _ => exact iff_of_false (fun ⟨members, he⟩ => hf members he) fun ⟨members, he⟩ => hs members he
  | @fields first second _ _ => exact iff_of_true ⟨first, rfl⟩ ⟨second, rfl⟩

/-- The codec of a type in closed form: a list for each list type, then the codecs of the type inside. -/
def Signature.qualified (front library : String) (signature : Signature) : String :=
  " ".intercalate
    (List.replicate signature.depth (library ++ "list") ++ signature.innermost.codecNames front library)

/-- Qualifying the codec of a type gives its closed form. -/
theorem KnownCodecs.qualify_codec_eq_qualified (front library : String) (signature : Signature) :
    standard.qualify front signature.codec library = signature.qualified front library := by
  rw [qualify_codec, Signature.codecNames_eq, Signature.qualified]

namespace Report

private theorem front_eq {α : Type} {x : α} {front front' back back' : List α} (hf : x ∉ front) (hf' : x ∉ front')
    (h : front ++ x :: back = front' ++ x :: back') : front = front' := by
  rcases List.append_eq_append_iff.1 h with ⟨more, rfl, hm⟩ | ⟨more, rfl, hm⟩
  · cases more with
    | nil => rw [List.append_nil]
    | cons y more =>
      obtain ⟨rfl, -⟩ := List.cons.inj hm
      exact absurd (List.mem_append_right _ List.mem_cons_self) hf'
  · cases more with
    | nil => rw [List.append_nil]
    | cons y more =>
      obtain ⟨rfl, -⟩ := List.cons.inj hm
      exact absurd (List.mem_append_right _ List.mem_cons_self) hf

private theorem parts_eq {α : Type} {x : α} {front front' back back' : List α} (hb : x ∉ back) (hb' : x ∉ back')
    (h : front ++ x :: back = front' ++ x :: back') : front = front' ∧ back = back' := by
  -- The separator comes last, so from the back it comes first.
  have hreverse : back.reverse ++ x :: front.reverse = back'.reverse ++ x :: front'.reverse := by
    simpa using congrArg List.reverse h
  have hback : back = back' :=
    List.reverse_injective (front_eq (List.mem_reverse.not.2 hb) (List.mem_reverse.not.2 hb') hreverse)
  subst hback
  exact ⟨List.append_cancel_right h, rfl⟩

private def marker (options : Options) (signature : Signature) : String :=
  if options.markPlaceholders && signature.isPlaceholder then " -- placeholder" else ""

private theorem mark_eq (options : Options) (signature : Signature) (line : String) :
    mark options signature line = line ++ marker options signature := by
  unfold mark marker
  split
  · rfl
  · rw [String.append_empty]

private theorem notMem_text {c : Char} (hc : ¬ (c.isAlpha ∨ c = ' ' ∨ c = '_')) (signature : Signature) :
    c ∉ signature.text.toList := by
  intro hm
  exact hc (signature.forall_mem_text c hm)

private theorem mark_text_injective {options : Options} {first second : Signature}
    (h : mark options first first.text = mark options second second.text) : first = second := by
  have hdash (signature : Signature) : '-' ∉ signature.text.toList := notMem_text (by decide) signature
  have hmarked : '-' ∈ " -- placeholder".toList := by decide
  apply Signature.text_injective
  unfold mark at h
  split at h <;> split at h
  · exact (String.append_left_inj _).1 h
  · refine absurd ?_ (hdash second)
    rw [← h, String.toList_append]
    exact List.mem_append_right _ hmarked
  · refine absurd ?_ (hdash first)
    rw [h, String.toList_append]
    exact List.mem_append_right _ hmarked
  · exact h

def ending (options : Options) (signature : Signature) : String :=
  mark options signature (signature.text ++ if options.codecs then codecs options .standard signature else "")

/-- The line of a field is its name, and what is behind the colon. -/
theorem fieldLine_eq (options : Options) (key : String) (signature : Signature) :
    fieldLine options .standard key signature = fieldName options key ++ " : " ++ ending options signature := by
  rw [fieldLine, ending, mark_eq, mark_eq]
  simp only [String.append_assoc]

private theorem toList_ending {options : Options} (h : options.codecs = true) (signature : Signature) :
    ∃ rest, (ending options signature).toList = (signature.text.toList ++ [' ']) ++ '(' :: rest := by
  rw [ending, if_pos h, mark_eq, codecs]
  simp only [String.toList_append, List.append_assoc]
  exact ⟨_, rfl⟩

private theorem ending_injective {options : Options} {first second : Signature}
    (h : ending options first = ending options second) : first = second := by
  by_cases hc : options.codecs = true
  · have hbracket (signature : Signature) : '(' ∉ signature.text.toList ++ [' '] := by
      rw [List.mem_append, not_or]
      exact ⟨notMem_text (by decide) signature, by decide⟩
    obtain ⟨rest, hf⟩ := toList_ending hc first
    obtain ⟨rest', hs⟩ := toList_ending hc second
    rw [h, hs] at hf
    have htext := front_eq (hbracket second) (hbracket first) hf
    exact Signature.text_injective (String.toList_injective (List.append_cancel_right htext)).symm
  · simp only [ending, if_neg hc, String.append_empty] at h
    exact mark_text_injective h

/-- The characters that a line has behind its colon, if they are not in a prefix of its codecs. -/
def isPlain (c : Char) : Bool := c.isAlpha || c ∈ [' ', '_', '-', '.', '(', ')', '/']

section
variable {c : Char}

private theorem notMem_of_all {text : String} (hc : ¬ isPlain c) (h : text.toList.all isPlain) : c ∉ text.toList :=
  fun hm => hc (List.all_eq_true.1 h c hm)

private theorem notMem_append {front text : String} (hf : c ∉ front.toList) (ht : c ∉ text.toList) :
    c ∉ (front ++ text).toList := by
  rw [String.toList_append, List.mem_append, not_or]
  exact ⟨hf, ht⟩

private theorem notMem_marker (hc : ¬ isPlain c) (options : Options) (signature : Signature) :
    c ∉ (marker options signature).toList := by
  unfold marker
  split
  · exact notMem_of_all hc (by decide)
  · exact notMem_of_all hc (by decide)

private theorem notMem_typeText (hc : ¬ isPlain c) (signature : Signature) : c ∉ signature.text.toList := by
  refine notMem_text ?_ signature
  rintro (h | rfl | rfl)
  · exact hc (Bool.or_eq_true_iff.2 (.inl h))
  · exact hc (by decide)
  · exact hc (by decide)

private theorem notMem_codecNames {front library : String} (hc : ¬ isPlain c) (hf : c ∉ front.toList)
    (hl : c ∉ library.toList) (signature : Signature) : ∀ name ∈ signature.codecNames front library, c ∉ name.toList := by
  have known {word : String} (h : word.toList.all isPlain) : c ∉ (library ++ word).toList :=
    notMem_append hl (notMem_of_all hc h)
  have other {word : String} (h : word.toList.all isPlain) : c ∉ (front ++ word).toList :=
    notMem_append hf (notMem_of_all hc h)
  induction signature with
  | list element ih => exact List.forall_mem_cons.2 ⟨known (by decide), ih⟩
  | bool | string | int | float => exact List.forall_mem_singleton.2 (known (by decide))
  | emptyList | nullable =>
    exact List.forall_mem_cons.2 ⟨known (by decide), List.forall_mem_singleton.2 (other (by decide))⟩
  | record | unreadable => exact List.forall_mem_singleton.2 (other (by decide))

private theorem notMem_qualify {front library : String} (hc : ¬ isPlain c) (hf : c ∉ front.toList)
    (hl : c ∉ library.toList) (signature : Signature) :
    c ∉ (KnownCodecs.standard.qualify front signature.codec library).toList := by
  intro hm
  rw [KnownCodecs.qualify_codec, String.toList_intercalate] at hm
  rcases mem_joinWords hm with rfl | ⟨part, hp, hm⟩
  · exact hc (by decide)
  · obtain ⟨name, hn, rfl⟩ := List.mem_map.1 hp
    exact notMem_codecNames hc hf hl signature name hn hm

private theorem notMem_codecs {options : Options} (hc : ¬ isPlain c) (hd : c ∉ options.decoderPrefix.toList)
    (he : c ∉ options.encoderPrefix.toList) (signature : Signature) :
    c ∉ (codecs options .standard signature).toList := by
  have hdecode : c ∉ KnownCodecs.decodeModule.toList := notMem_of_all hc (by decide)
  have hencode : c ∉ KnownCodecs.encodeModule.toList := notMem_of_all hc (by decide)
  have hdecoder := notMem_qualify hc hd hdecode signature
  have hencoder := notMem_qualify hc he hencode signature
  have hopen : c ∉ " (".toList := notMem_of_all hc (by decide)
  have hbetween : c ∉ " / ".toList := notMem_of_all hc (by decide)
  have hclose : c ∉ ")".toList := notMem_of_all hc (by decide)
  exact notMem_append (notMem_append (notMem_append (notMem_append hopen hdecoder) hbetween) hencoder) hclose

/-- Behind the key a line has plain characters, and those of its codecs' prefixes. -/
theorem notMem_ending {options : Options} (hc : ¬ isPlain c)
    (h : options.codecs = true → c ∉ options.decoderPrefix.toList ∧ c ∉ options.encoderPrefix.toList)
    (signature : Signature) : c ∉ (ending options signature).toList := by
  rw [ending, mark_eq]
  refine notMem_append (notMem_append (notMem_typeText hc signature) ?_) (notMem_marker hc options signature)
  split
  · rename_i hcodecs
    exact notMem_codecs hc (h hcodecs).1 (h hcodecs).2 signature
  · exact List.not_mem_nil

end

private theorem fieldLine_injective {options : Options} (plain : options.camelCase = false)
    (prefixes : options.codecs = true → ':' ∉ options.decoderPrefix.toList ∧ ':' ∉ options.encoderPrefix.toList)
    {key key' : String} {first second : Signature}
    (h : fieldLine options .standard key first = fieldLine options .standard key' second) :
    key = key' ∧ first = second := by
  have hname (key : String) : fieldName options key = key := by
    rw [fieldName, plain]
    rfl
  have hsplit (key : String) (signature : Signature) :
      (fieldLine options .standard key signature).toList =
        (key.toList ++ [' ']) ++ ':' :: ' ' :: (ending options signature).toList := by
    rw [fieldLine_eq, hname]
    simp
  have hcolon (signature : Signature) : ':' ∉ ' ' :: (ending options signature).toList := by
    rw [List.mem_cons, not_or]
    exact ⟨by decide, notMem_ending (by decide) prefixes signature⟩
  have hlist := congrArg String.toList h
  rw [hsplit, hsplit] at hlist
  obtain ⟨hkey, hend⟩ := parts_eq (hcolon first) (hcolon second) hlist
  exact ⟨String.toList_injective (List.append_cancel_right hkey),
    ending_injective (String.toList_injective (List.cons.inj hend).2)⟩

private theorem lines_other (options : Options) (known : KnownCodecs) {value : Json}
    (h : ∀ members, value ≠ .object members) :
    (lines options known value).value = [mark options value.signature.value value.signature.value.text] := by
  cases value with
  | object members => exact absurd rfl (h members)
  | null | bool _ | number _ | string _ | array _ => rfl

/-- An object is reported field by field. -/
theorem lines_object (options : Options) (known : KnownCodecs) (members : Members) :
    (lines options known (.object members)).value =
      members.signatures.value.map fun guess => fieldLine options known guess.1 guess.2 := rfl

private theorem fieldLine_ne_mark (options : Options) (key : String) (signature other : Signature) :
    fieldLine options .standard key signature ≠ mark options other other.text := by
  intro h
  have htext : ':' ∉ (mark options other other.text).toList := by
    rw [mark_eq, String.toList_append, List.mem_append, not_or]
    exact ⟨notMem_text (by decide) other, notMem_marker (by decide) options other⟩
  rw [← h, fieldLine_eq] at htext
  simp at htext

private theorem lines_object_ne_other (options : Options) (members : Members) {other : Json}
    (h : ∀ members, other ≠ .object members) :
    (lines options .standard (.object members)).value ≠ (lines options .standard other).value := by
  rw [lines_object, lines_other options .standard h]
  intro he
  obtain ⟨guess, -, hline⟩ := List.map_eq_singleton_iff.1 he
  exact fieldLine_ne_mark options guess.1 guess.2 _ hline

private theorem lines_object_eq_iff {options : Options} (plain : options.camelCase = false)
    (prefixes : options.codecs = true → ':' ∉ options.decoderPrefix.toList ∧ ':' ∉ options.encoderPrefix.toList)
    {first second : Members} (distinct : first.keys.Nodup) :
    (lines options .standard (.object first)).value = (lines options .standard (.object second)).value ↔
      (Json.object first).Alike (.object second) := by
  have hinjective : Function.Injective fun guess : String × Signature =>
      fieldLine options .standard guess.1 guess.2 := by
    intro guess guess' h
    obtain ⟨hkey, htype⟩ := fieldLine_injective plain prefixes h
    exact Prod.ext hkey htype
  rw [lines_object, lines_object, (List.map_injective_iff.2 hinjective).eq_iff, Members.signatures_eq_iff distinct]
  constructor
  · rintro ⟨hkeys, hsame⟩
    exact .fields hkeys hsame
  · intro h
    cases h with
    | guesses hf _ _ => exact absurd rfl (hf first)
    | fields hkeys hsame => exact ⟨hkeys, hsame⟩

private theorem lines_other_eq_iff (options : Options) {first second : Json} (hf : ∀ members, first ≠ .object members)
    (hs : ∀ members, second ≠ .object members) :
    (lines options .standard first).value = (lines options .standard second).value ↔ first.Alike second := by
  rw [lines_other options .standard hf, lines_other options .standard hs, List.singleton_inj]
  constructor
  · intro h
    exact .guesses hf hs (mark_text_injective h)
  · intro h
    cases h with
    | guesses _ _ hsame => rw [hsame]
    | fields _ _ => exact absurd rfl (hf _)

private theorem lines_eq_iff {options : Options} (plain : options.camelCase = false)
    (prefixes : options.codecs = true → ':' ∉ options.decoderPrefix.toList ∧ ':' ∉ options.encoderPrefix.toList)
    {first second : Json} (hf : first.WellFormed) :
    (lines options .standard first).value = (lines options .standard second).value ↔ first.Alike second := by
  by_cases hfo : ∃ members, first = .object members <;> by_cases hso : ∃ members, second = .object members
  · obtain ⟨members, rfl⟩ := hfo
    obtain ⟨members', rfl⟩ := hso
    cases hf with
    | object distinct _ _ => exact lines_object_eq_iff plain prefixes distinct
  · obtain ⟨members, rfl⟩ := hfo
    refine iff_of_false (lines_object_ne_other options members (not_exists.1 hso)) fun h => ?_
    exact hso (h.isObject.1 ⟨members, rfl⟩)
  · obtain ⟨members, rfl⟩ := hso
    refine iff_of_false (lines_object_ne_other options members (not_exists.1 hfo)).symm fun h => ?_
    exact hfo (h.isObject.2 ⟨members, rfl⟩)
  · exact lines_other_eq_iff options (not_exists.1 hfo) (not_exists.1 hso)

/-- Where keys are shown as they are, and the prefixes of codecs, if those are shown, have no colon: the reports on two
texts are the same exactly if their values have the same keys with the same guesses, or are no objects and have the same
guess. The key and the type are read off any line of a field, and the type off any other line. -/
theorem report_eq_iff {options : Options} (plain : options.camelCase = false)
    (prefixes : options.codecs = true → ':' ∉ options.decoderPrefix.toList ∧ ':' ∉ options.encoderPrefix.toList) :
    (∀ first second : List UInt8,
      (Run.report options (Example.ofText first)).value = (Run.report options (Example.ofText second)).value ↔
        (Example.ofText first).value.Alike (Example.ofText second).value) ∧
    (∀ (key key' : String) (type type' : Signature),
      fieldLine options .standard key type = fieldLine options .standard key' type' → key = key' ∧ type = type') ∧
    (∀ type type' : Signature, mark options type type.text = mark options type' type'.text → type = type') :=
  ⟨fun first _ => lines_eq_iff plain prefixes (Example.wellFormed_ofText first),
    fun _ _ _ _ => fieldLine_injective plain prefixes, fun _ _ => mark_text_injective⟩

/-- With a marker and codecs: two numbers have one report, and neither a key that looks like the end of a line nor a dash
as a prefix hides where the type begins. -/
theorem report_eq_iff_number :
    let options : Options := ⟨"-", false, true, true, "- ", "("⟩
    options.camelCase = false ∧
      (options.codecs = true → ':' ∉ options.decoderPrefix.toList ∧ ':' ∉ options.encoderPrefix.toList) ∧
      (Run.report options (Example.ofText [49])).value = (Run.report options (Example.ofText [50])).value ∧
      fieldLine options .standard "a : Int" .record ≠ fieldLine options .standard "a" .record ∧
      mark options .nullable Signature.nullable.text ≠ mark options .emptyList Signature.emptyList.text := by
  intro options
  have hprefixes : options.codecs = true →
      ':' ∉ options.decoderPrefix.toList ∧ ':' ∉ options.encoderPrefix.toList := by decide
  obtain ⟨htexts, hlines, hguesses⟩ := @report_eq_iff options rfl hprefixes
  have halike : (Example.ofText [49]).value.Alike (Example.ofText [50]).value :=
    .guesses (fun _ => Json.noConfusion) (fun _ => Json.noConfusion) rfl
  refine ⟨rfl, hprefixes, (htexts [49] [50]).2 halike, fun h => ?_, fun h => ?_⟩
  · exact absurd (hlines _ _ _ _ h).1 (by decide)
  · exact absurd (hguesses _ _ h) (by decide)

/-- The codec of any type, and both codecs in every line of a report that shows them, in closed form: as many lists as the
type has list types, and then the codecs of its innermost type. -/
theorem qualify_codec_closedForm :
    (∀ (front library : String) (signature : Signature),
      signature = Signature.nest signature.depth signature.innermost ∧
      KnownCodecs.standard.qualify front signature.codec library = signature.qualified front library) ∧
    (∀ options : Options, options.codecs = true → ∀ members : Members,
      (lines options .standard (.object members)).value = members.map fun member =>
        let signature := member.2.signature.value
        mark options signature (fieldName options member.1 ++ " : " ++ signature.text ++ " (" ++
          signature.qualified options.decoderPrefix "Json.Decode." ++ " / " ++
          signature.qualified options.encoderPrefix "Json.Encode." ++ ")")) := by
  refine ⟨fun front library signature => ?_, fun options hcodecs members => ?_⟩
  · exact ⟨signature.nest_depth_innermost.symm, KnownCodecs.qualify_codec_eq_qualified front library signature⟩
  · rw [lines_object, Members.signatures_eq_map, List.map_map]
    refine List.map_congr_left fun member _ => ?_
    simp only [Function.comp_apply, fieldLine, hcodecs, if_true, codecs, KnownCodecs.qualify_codec_eq_qualified,
      KnownCodecs.decodeModule, KnownCodecs.encodeModule, String.append_assoc]

/-- The line of a field with a list of an empty list. -/
theorem qualify_codec_closedForm_lists :
    let options : Options := ⟨"-", false, true, false, "from ", "to"⟩
    options.codecs = true ∧ (lines options .standard (.object [("ids", .array [.array []])])).value =
      ["ids : List List a (Json.Decode.list Json.Decode.list from A / Json.Encode.list Json.Encode.list toA)"] := by
  intro options
  have hlines := qualify_codec_closedForm.2 options rfl [("ids", .array [.array []])]
  refine ⟨rfl, hlines.trans ?_⟩
  decide +kernel

end Report
end TypeSketch
