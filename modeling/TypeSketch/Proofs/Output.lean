import TypeSketch.Proofs.Naming
import TypeSketch.Proofs.Report
import TypeSketch.Proofs.Run

/-! What a run puts out, read line by line. A report has one line for each field of an object, but a key is shown as it is,
so one that holds line feeds takes a line more for each of them. Nothing else in a line can be a line feed. -/
namespace TypeSketch

namespace Report

def fieldLines (options : Options) (members : Members) : List String :=
  members.map fun member => fieldLine options .standard member.1 member.2.signature.value

/-- The report on an object is the lines for its fields. -/
theorem lines_object_eq_fieldLines (options : Options) (members : Members) :
    (lines options .standard (.object members)).value = fieldLines options members := by
  rw [lines_object, Members.signatures_eq_map, List.map_map]
  rfl

/-- In either form a key has its line feeds. -/
theorem count_fieldName (options : Options) (key : String) :
    (fieldName options key).toList.count '\n' = key.toList.count '\n' := by
  unfold fieldName
  split
  · rw [Naming.toCamelCase, String.toList_ofList, Naming.count_camelChars caseless_lineFeed (by decide)]
  · rfl

/-- The line of a field has the line feeds of its key. -/
theorem count_fieldLine {options : Options}
    (prefixes : options.codecs = true → '\n' ∉ options.decoderPrefix.toList ∧ '\n' ∉ options.encoderPrefix.toList)
    (key : String) (signature : Signature) :
    (fieldLine options .standard key signature).toList.count '\n' = key.toList.count '\n' := by
  have hending : (ending options signature).toList.count '\n' = 0 :=
    List.count_eq_zero.2 (notMem_ending (by decide) prefixes signature)
  have hcolon : " : ".toList.count '\n' = 0 := by decide
  rw [fieldLine_eq, String.toList_append, String.toList_append, List.count_append, List.count_append, hending, hcolon,
    count_fieldName]
  rfl

/-- If the prefixes of codecs have no line feeds, the lines have those of the keys. -/
theorem map_count_fieldLines {options : Options}
    (prefixes : options.codecs = true → '\n' ∉ options.decoderPrefix.toList ∧ '\n' ∉ options.encoderPrefix.toList)
    (members : Members) :
    (fieldLines options members).map (·.toList.count '\n') = members.keys.map (·.toList.count '\n') := by
  rw [fieldLines, Members.keys, List.map_map, List.map_map]
  exact List.map_congr_left fun member _ => count_fieldLine prefixes member.1 member.2.signature.value

end Report

namespace Run

private theorem toList_unlines_cons (line : String) (lines : List String) :
    (unlines (line :: lines)).toList = line.toList ++ '\n' :: (unlines lines).toList := by
  simp [unlines]

/-- Each line that is put out is cut at the line feeds that it holds, and nothing comes behind the last one. -/
theorem segments_unlines (lines : List String) :
    segments (· = '\n') (unlines lines).toList = (lines.flatMap fun line => segments (· = '\n') line.toList) ++ [[]] := by
  induction lines with
  | nil => rfl
  | cons line lines ih =>
    rw [toList_unlines_cons, segments_append_cons (by decide), ih, List.flatMap_cons, List.append_assoc]

/-- What is put out has a line feed for each line, and those that are in the lines. -/
theorem count_unlines (lines : List String) :
    (unlines lines).toList.count '\n' = lines.length + (lines.map (·.toList.count '\n')).sum := by
  induction lines with
  | nil => rfl
  | cons line lines ih =>
    rw [toList_unlines_cons, List.count_append, List.count_cons_self, ih, List.length_cons, List.map_cons, List.sum_cons]
    omega

/-- Lines are read back one by one exactly if there is no line feed in them. -/
theorem segments_unlines_eq_iff (lines : List String) :
    segments (· = '\n') (unlines lines).toList = lines.map String.toList ++ [[]] ↔
      (lines.map (·.toList.count '\n')).sum = 0 := by
  constructor
  · intro h
    have hparts := length_segments (· = '\n') (unlines lines).toList
    rw [h, List.length_append, List.length_map] at hparts
    have hcount : lines.length = (unlines lines).toList.count '\n' := Nat.add_right_cancel hparts
    rw [count_unlines] at hcount
    omega
  · intro h
    rw [List.sum_eq_zero_iff_forall_eq_nat, List.forall_mem_map] at h
    have hline : ∀ line ∈ lines, segments (· = '\n') line.toList = [line.toList] := by
      intro line hl
      refine segments_eq_singleton fun c hc heq => List.count_eq_zero.1 (h line hl) ?_
      exact of_decide_eq_true heq ▸ hc
    rw [segments_unlines, List.flatMap_congr hline, List.map_eq_flatMap]

end Run

/-- What a run on an object puts out. It is read back as the lines of the fields, in the order of the keys and ended by a
line feed each, exactly if no key holds a line feed; and there are as many lines as fields, and one more for each line feed
in a key. -/
theorem run_lines {environment : Environment} {arguments : List String} {options : Options} {bytes : List UInt8}
    {members : Members} (accepted : CommandLine.parse arguments = .ok options)
    (prefixes : options.codecs = true → '\n' ∉ options.decoderPrefix.toList ∧ '\n' ∉ options.encoderPrefix.toList)
    (given : environment.Gives options.input bytes) (object : (Example.ofText bytes).value = .object members) :
    let output := (run environment arguments).output
    (segments (· = '\n') output.toList = (Report.fieldLines options members).map String.toList ++ [[]] ↔
      ∀ key ∈ members.keys, '\n' ∉ key.toList) ∧
    output.toList.count '\n' = members.length + (members.keys.map (·.toList.count '\n')).sum := by
  intro output
  have houtput : output = Run.unlines (Report.fieldLines options members) := by
    rw [← Report.lines_object_eq_fieldLines, ← object]
    exact congrArg Outcome.output (run_of_gives accepted given)
  rw [houtput, Run.segments_unlines_eq_iff, Run.count_unlines, Report.map_count_fieldLines prefixes]
  refine ⟨?_, ?_⟩
  · rw [List.sum_eq_zero_iff_forall_eq_nat, List.forall_mem_map]
    exact forall₂_congr fun key _ => List.count_eq_zero
  · rw [Report.fieldLines, List.length_map]

/-- An environment with this text as its standard input, and without files. -/
def Environment.ofInput (text : List UInt8) : Environment := ⟨none, [.bytes text], fun _ => .error .notFound⟩

private theorem ofText_field {key : String} {text : List UInt8} (untagged : key ≠ Reader.tag)
    (h : text = Utf8.encode (Json.object [(key, .bool true)]).compact) :
    Example.ofText text = ⟨.object [(key, .bool true)], []⟩ := by
  have hvalue : (Json.object [(key, .bool true)]).WellFormed :=
    .object (List.pairwise_singleton _ key) (by simpa [Members.keys] using untagged)
      (List.forall_mem_singleton.2 (.bool true))
  rw [h, Example.ofText_compact hvalue]

/-- An object with the key `a_b`, whose one line is read back in `camelCase`. -/
theorem run_lines_camelCase :
    let text : List UInt8 := [123, 34, 97, 95, 98, 34, 58, 116, 114, 117, 101, 125]
    let options : Options := ⟨"-", true, false, false, "decode", "encode"⟩
    CommandLine.parse ["--camel-case"] = .ok options ∧
      (options.codecs = true → '\n' ∉ options.decoderPrefix.toList ∧ '\n' ∉ options.encoderPrefix.toList) ∧
      (Environment.ofInput text).Gives options.input text ∧
      (Example.ofText text).value = .object [("a_b", .bool true)] ∧
      segments (· = '\n') (run (Environment.ofInput text) ["--camel-case"]).output.toList =
        ["aB : Bool".toList, []] := by
  intro text options
  have haccepted : CommandLine.parse ["--camel-case"] = .ok options := by rfl
  have hprefixes : options.codecs = true →
      '\n' ∉ options.decoderPrefix.toList ∧ '\n' ∉ options.encoderPrefix.toList := by decide
  have hgiven : (Environment.ofInput text).Gives options.input text := ⟨_, .standardInput, ends_single text⟩
  have hobject : (Example.ofText text).value = .object [("a_b", .bool true)] :=
    congrArg Logged.value (ofText_field (by decide) (by decide +kernel))
  have hlines := (run_lines haccepted hprefixes hgiven hobject).1.2 (by decide)
  refine ⟨haccepted, hprefixes, hgiven, hobject, hlines.trans ?_⟩
  decide +kernel

/-- One field whose key holds a line feed, written as an escape: two lines are put out for it. -/
theorem run_lineFeedInKey :
    let text : List UInt8 := [123, 34, 97, 92, 110, 98, 34, 58, 116, 114, 117, 101, 125]
    let options : Options := ⟨"-", false, false, false, "decode", "encode"⟩
    CommandLine.parse [] = .ok options ∧
      ('\n' ∉ options.decoderPrefix.toList ∧ '\n' ∉ options.encoderPrefix.toList) ∧
      (Environment.ofInput text).Gives options.input text ∧
      Example.ofText text = ⟨.object [("a\nb", .bool true)], []⟩ ∧
      Report.fieldLines options [("a\nb", .bool true)] = ["a\nb : Bool"] ∧
      segments (· = '\n') (run (Environment.ofInput text) []).output.toList =
        ["a".toList, "b : Bool".toList, []] := by
  intro text options
  have hobject : Example.ofText text = ⟨.object [("a\nb", .bool true)], []⟩ :=
    ofText_field (by decide) (by decide +kernel)
  exact ⟨by rfl, by decide, ⟨_, .standardInput, ends_single text⟩, hobject, by decide, by decide +kernel⟩

end TypeSketch
