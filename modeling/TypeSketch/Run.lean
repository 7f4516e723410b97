import TypeSketch.Example
import TypeSketch.Report

/-! A whole run of the program, as a function of what it is given: its arguments, its environment, its standard
input and the files that it can open. -/
namespace TypeSketch

/-- What a run leaves behind. -/
structure Outcome where
  code : Nat
  output : String
  errors : String
  deriving DecidableEq, Repr

/-- What a run is given beside its arguments. -/
structure Environment where
  /-- The log setting, if there is one. -/
  logging : Option String
  standardInput : Stream
  openFile : String → Except SystemError Stream

/-- Why the input of a run cannot be had. -/
inductive InputFailure where
  | opening (name : String) (error : SystemError)
  | reading (error : SystemError)
  deriving DecidableEq, Repr

def InputFailure.message : InputFailure → List String
  | .opening name error => ["Error: opening " ++ name, "", "Caused by:", "    " ++ error.text]
  | .reading error => ["Error: reading input", "", "Caused by:", "    " ++ error.text]

namespace Run

/-- Lines as a text, each with a line feed behind it. -/
def unlines (lines : List String) : String := String.join (lines.map (· ++ "\n"))

def halted (halt : CommandLine.Halt) : Outcome :=
  match halt with
  | .requested _ => ⟨0, halt.streamed, ""⟩
  | _ => ⟨2, "", halt.streamed ++ "\n"⟩

def failed (failure : InputFailure) : Outcome := ⟨1, "", unlines failure.message⟩

def report (options : Options) (value : Logged Json) : Logged (List String) :=
  value >>= Report.lines options .standard

def reported (options : Options) (filter : LogFilter) (value : Logged Json) : Outcome :=
  let lines := report options value
  ⟨0, unlines lines.value, unlines ((lines.events.filter filter.shows).map Event.line)⟩

/-- Opens the input that is asked for: standard input for a dash, a file for any other name. -/
def openInput (environment : Environment) (name : String) : Except InputFailure Stream :=
  if name = "-" then .ok environment.standardInput
  else (environment.openFile name).mapError (.opening name)

def readInput (environment : Environment) (name : String) : Except InputFailure (Logged Json) := do
  let stream ← openInput environment name
  (Example.ofSource stream).mapError .reading

end Run

/-- A whole run: arguments are judged before any input is opened, and the input is read to its end
before anything is reported. -/
def run (environment : Environment) (arguments : List String) : Outcome :=
  match CommandLine.parse arguments with
  | .error halt => Run.halted halt
  | .ok options =>
    match Run.readInput environment options.input with
    | .error failure => Run.failed failure
    | .ok value => Run.reported options (LogFilter.ofSetting environment.logging) value

end TypeSketch
