import TypeSketch.Run
import TypeSketch.Proofs.Schedule
import TypeSketch.Proofs.Source

/-! Whole runs. Three things decide the exit code and what is put out: whether the arguments are accepted, whether the input
can be opened and read to its end, and the report on what it gives. Each comes before the next, and nothing is put out
before all of them are settled. -/
namespace TypeSketch

namespace Environment
variable {environment : Environment} {name : String} {stream : Stream} {bytes : List UInt8}

/-- The input of that name can be opened: a dash is the standard input, and any other name that of a file. -/
inductive Opens (environment : Environment) : String → Stream → Prop
  | standardInput : Opens environment "-" environment.standardInput
  | file {name : String} {stream : Stream} (named : name ≠ "-") (opened : environment.openFile name = .ok stream) :
      Opens environment name stream

/-- The input of that name can be opened and read to its end, and `bytes` are what is in it. -/
def Gives (environment : Environment) (name : String) (bytes : List UInt8) : Prop :=
  ∃ stream, environment.Opens name stream ∧ Ends stream bytes

/-- The input of that name cannot be opened, or it fails when it is read. -/
inductive Withholds (environment : Environment) (name : String) : Prop
  | closed {error : SystemError} (named : name ≠ "-") (refused : environment.openFile name = .error error)
  | broken {stream : Stream} {error : SystemError} (opened : environment.Opens name stream) (failed : Fails stream error)

end Environment

namespace Run
variable {environment : Environment} {name : String} {stream : Stream} {bytes : List UInt8}

private theorem openInput_of_opens (h : environment.Opens name stream) : openInput environment name = .ok stream := by
  cases h with
  | standardInput => rfl
  | file named opened =>
    rw [openInput, if_neg named, opened]
    rfl

private theorem readInput_of_opens (h : environment.Opens name stream) :
    readInput environment name = (Example.ofSource stream).mapError .reading := by
  rw [readInput, openInput_of_opens h]
  rfl

/-- The example is that of the bytes which the input gives. -/
theorem readInput_of_gives (h : environment.Gives name bytes) :
    readInput environment name = .ok (Example.ofText bytes) := by
  obtain ⟨stream, hopen, hends⟩ := h
  rw [readInput_of_opens hopen, Example.ofSource_of_ends hends]
  rfl

/-- An input that is withheld is a failure. -/
theorem readInput_of_withholds (h : environment.Withholds name) :
    ∃ failure, readInput environment name = .error failure := by
  cases h with
  | @closed error named refused =>
    refine ⟨.opening name error, ?_⟩
    rw [readInput, openInput, if_neg named, refused]
    rfl
  | @broken stream error opened failed =>
    refine ⟨.reading error, ?_⟩
    rw [readInput_of_opens opened, Example.ofSource_of_fails failed]
    rfl

private theorem opens_or_withholds (environment : Environment) (name : String) :
    (∃ stream, environment.Opens name stream) ∨ environment.Withholds name := by
  by_cases hn : name = "-"
  · subst hn
    exact .inl ⟨environment.standardInput, .standardInput⟩
  · cases ho : environment.openFile name with
    | error error => exact .inr (.closed hn ho)
    | ok stream => exact .inl ⟨stream, .file hn ho⟩

/-- Every input gives its bytes or is withheld. -/
theorem gives_or_withholds (environment : Environment) (name : String) :
    (∃ bytes, environment.Gives name bytes) ∨ environment.Withholds name := by
  rcases opens_or_withholds environment name with ⟨stream, ho⟩ | hw
  · rcases ends_or_fails stream with ⟨bytes, he⟩ | ⟨error, hf⟩
    · exact .inl ⟨bytes, stream, ho, he⟩
    · exact .inr (.broken ho hf)
  · exact .inr hw

end Run

section
variable {environment : Environment} {arguments : List String} {options : Options} {bytes : List UInt8}

/-- Arguments that are not accepted decide alone. -/
theorem run_of_error {halt : CommandLine.Halt} (h : CommandLine.parse arguments = .error halt) :
    run environment arguments = Run.halted halt := by
  rw [run, h]

/-- A run on an input that gives its bytes reports on them. -/
theorem run_of_gives (accepted : CommandLine.parse arguments = .ok options) (h : environment.Gives options.input bytes) :
    run environment arguments =
      Run.reported options (LogFilter.ofSetting environment.logging) (Example.ofText bytes) := by
  rw [run, accepted]
  simp only [Run.readInput_of_gives h]

/-- A run on an input that is withheld fails. -/
theorem run_of_withholds (accepted : CommandLine.parse arguments = .ok options)
    (h : environment.Withholds options.input) : ∃ failure, run environment arguments = Run.failed failure := by
  obtain ⟨failure, hf⟩ := Run.readInput_of_withholds h
  refine ⟨failure, ?_⟩
  rw [run, accepted]
  simp only [hf]

/-- A text that is not JSON has the report of an object without fields. -/
theorem lines_of_not_denoted (options : Options) (h : ∀ value, ¬ Json.Denoted bytes value) :
    (Report.lines options .standard (Example.ofText bytes).value).value = [] := by
  obtain ⟨category, place, hr⟩ := Example.replaced_of_not_denoted h
  rw [hr]
  rfl

/-- The log setting is looked at only for the log. -/
theorem run_logging (environment : Environment) (setting : Option String) (arguments : List String) :
    (run { environment with logging := setting } arguments).code = (run environment arguments).code ∧
      (run { environment with logging := setting } arguments).output = (run environment arguments).output := by
  cases hp : CommandLine.parse arguments with
  | error halt => simp only [run_of_error hp, and_self]
  | ok options =>
    have hread : Run.readInput { environment with logging := setting } options.input =
        Run.readInput environment options.input := rfl
    simp only [run, hp, hread]
    cases Run.readInput environment options.input with
    | error failure => exact ⟨rfl, rfl⟩
    | ok value => exact ⟨rfl, rfl⟩

/-- A run that is asked for a file does not look at its standard input. -/
theorem run_standardInput (accepted : CommandLine.parse arguments = .ok options) (named : options.input ≠ "-")
    (environment : Environment) (input : Stream) :
    run { environment with standardInput := input } arguments = run environment arguments := by
  have hread : Run.readInput { environment with standardInput := input } options.input =
      Run.readInput environment options.input := by
    simp only [Run.readInput, Run.openInput, if_neg named]
  simp only [run, accepted, hread]

/-- What a run leaves, for arguments that do not ask for help or the version. The files are given with what is in them,
so a file that is the standard input under another name counts as the others do. -/
theorem run_outcome {arguments : List String}
    (proper : ∀ request, CommandLine.parse arguments ≠ .error (.requested request)) (environment : Environment) :
    (∀ options, CommandLine.parse arguments = .ok options →
      ((∃ bytes, environment.Gives options.input bytes) ∨ environment.Withholds options.input) ∧
      (∀ bytes, environment.Gives options.input bytes →
        (run environment arguments).code = 0 ∧
        (run environment arguments).output =
          Run.unlines (Report.lines options .standard (Example.ofText bytes).value).value ∧
        ((∀ value, ¬ Json.Denoted bytes value) → (run environment arguments).output = "")) ∧
      (environment.Withholds options.input →
        (run environment arguments).code = 1 ∧ (run environment arguments).output = "") ∧
      (options.input ≠ "-" →
        ∀ input, run { environment with standardInput := input } arguments = run environment arguments)) ∧
    (∀ halt, CommandLine.parse arguments = .error halt →
      (run environment arguments).code = 2 ∧ (run environment arguments).output = "" ∧
      ∀ other, run other arguments = run environment arguments) ∧
    (∀ setting, (run { environment with logging := setting } arguments).code = (run environment arguments).code ∧
      (run { environment with logging := setting } arguments).output = (run environment arguments).output) := by
  refine ⟨fun options accepted => ⟨?_, fun bytes given => ?_, fun withheld => ?_, fun named => ?_⟩, fun halt hp => ?_,
    fun setting => run_logging environment setting arguments⟩
  · exact Run.gives_or_withholds environment options.input
  · rw [run_of_gives accepted given]
    refine ⟨rfl, rfl, fun malformed => ?_⟩
    exact congrArg Run.unlines (lines_of_not_denoted options malformed)
  · obtain ⟨failure, hf⟩ := run_of_withholds accepted withheld
    rw [hf]
    exact ⟨rfl, rfl⟩
  · exact run_standardInput accepted named environment
  · have hrun (other : Environment) : run other arguments = Run.halted halt := run_of_error hp
    refine ⟨?_, ?_, fun other => (hrun other).trans (hrun environment).symm⟩
    all_goals
      rw [hrun]
      cases halt with
      | requested request => exact absurd hp (proper request)
      | unexpectedArgument _ | repeated _ | missingValue _ | unexpectedValue _ _ => rfl

/-- A file with an empty array, which comes in two pieces; one that fails behind such an array; and no others. -/
def twoFiles : Environment where
  logging := some "trace"
  standardInput := [.failed .isADirectory]
  openFile name :=
    if name = "whole" then .ok [.bytes [91], .interrupted, .bytes [93]]
    else if name = "broken" then .ok [.bytes [91, 93], .failed .isADirectory]
    else .error .notFound

/-- Runs on both files, with all that is needed for them, and one with an option that there is not. -/
theorem run_outcome_twoFiles :
    ((∀ request, CommandLine.parse ["whole"] ≠ .error (.requested request)) ∧ twoFiles.Gives "whole" [91, 93] ∧
      (run twoFiles ["whole"]).code = 0 ∧ (run twoFiles ["whole"]).output = "List a\n" ∧
      run { twoFiles with standardInput := [] } ["whole"] = run twoFiles ["whole"]) ∧
    ((∀ request, CommandLine.parse ["broken"] ≠ .error (.requested request)) ∧ twoFiles.Withholds "broken" ∧
      (run twoFiles ["broken"]).code = 1 ∧ (run twoFiles ["broken"]).output = "") ∧
    ((∀ request, CommandLine.parse ["--codec", "broken"] ≠ .error (.requested request)) ∧
      (run twoFiles ["--codec", "broken"]).code = 2 ∧ (run twoFiles ["--codec", "broken"]).output = "") := by
  have hwhole : CommandLine.parse ["whole"] = .ok ⟨"whole", false, false, false, "decode", "encode"⟩ := by rfl
  have hbroken : CommandLine.parse ["broken"] = .ok ⟨"broken", false, false, false, "decode", "encode"⟩ := by rfl
  have hunknown : CommandLine.parse ["--codec", "broken"] = .error (.unexpectedArgument "--codec") := by rfl
  have hends : Ends (ε := SystemError) [.bytes [91], .interrupted, .bytes [93]] [91, 93] :=
    ⟨[.bytes [91], .interrupted, .bytes [93]], [], rfl, by simp [Delivery.GoesOn], .inl rfl, rfl⟩
  have hgives : twoFiles.Gives "whole" [91, 93] := ⟨_, .file (by decide) rfl, hends⟩
  have hwithholds : twoFiles.Withholds "broken" :=
    .broken (.file (by decide) rfl) ⟨[.bytes [91, 93]], [], rfl, by simp [Delivery.GoesOn]⟩
  have hproper {arguments : List String} {options : Options} (h : CommandLine.parse arguments = .ok options) :
      ∀ request, CommandLine.parse arguments ≠ .error (.requested request) := by
    intro request hr
    cases h.symm.trans hr
  have hrejected : ∀ request, CommandLine.parse ["--codec", "broken"] ≠ .error (.requested request) := by
    intro request hr
    cases hunknown.symm.trans hr
  obtain ⟨-, hread, -, hother⟩ := (run_outcome (hproper hwhole) twoFiles).1 _ hwhole
  obtain ⟨hcode, houtput, -⟩ := hread _ hgives
  obtain ⟨-, -, hfailed, -⟩ := (run_outcome (hproper hbroken) twoFiles).1 _ hbroken
  obtain ⟨hexit, hnothing, -⟩ := (run_outcome hrejected twoFiles).2.1 _ hunknown
  exact ⟨⟨hproper hwhole, hgives, hcode, houtput.trans (by rfl), hother (by decide) []⟩,
    ⟨hproper hbroken, hwithholds, hfailed hwithholds⟩, hrejected, hexit, hnothing⟩

end

end TypeSketch
