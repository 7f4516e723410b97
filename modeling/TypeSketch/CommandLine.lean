import TypeSketch.Text.Terminal

/-! The command line: options of the form `--name`, `--name value` or `--name=value`, and one input.
Arguments are taken from left to right, and the first one that cannot be taken ends it. -/
namespace TypeSketch

/-- What a command line asks for. -/
structure Options where
  /-- Where to read the example from; a dash is standard input. -/
  input : String
  camelCase : Bool
  codecs : Bool
  markPlaceholders : Bool
  decoderPrefix : String
  encoderPrefix : String
  deriving DecidableEq, Repr

namespace CommandLine

/-- The options that have no value. -/
inductive Flag where
  | camelCase
  | codecs
  | markPlaceholders
  deriving DecidableEq, Repr

/-- The options that have a value. -/
inductive Setting where
  | decoderPrefix
  | encoderPrefix
  deriving DecidableEq, Repr

/-- The requests that are answered at once. -/
inductive Request where
  | help
  | version
  deriving DecidableEq, Repr

/-- The names behind two dashes. -/
inductive Name where
  | flag (flag : Flag)
  | setting (setting : Setting)
  | request (request : Request)
  deriving DecidableEq, Repr

/-- Why a command line gives no options. -/
inductive Halt where
  | requested (request : Request)
  | unexpectedArgument (argument : String)
  | repeated (name : Name)
  | missingValue (setting : Setting)
  | unexpectedValue (value : String) (name : Name)
  deriving DecidableEq, Repr

def Name.all : List Name :=
  [.flag .camelCase, .flag .codecs, .flag .markPlaceholders, .setting .decoderPrefix,
    .setting .encoderPrefix, .request .help, .request .version]

def Name.text : Name → String
  | .flag .camelCase => "camel-case"
  | .flag .codecs => "codecs"
  | .flag .markPlaceholders => "mark-placeholders"
  | .setting .decoderPrefix => "decoder-prefix"
  | .setting .encoderPrefix => "encoder-prefix"
  | .request .help => "help"
  | .request .version => "version"

def Name.ofText? (text : String) : Option Name := Name.all.find? (·.text = text)

def Name.usage : Name → String
  | .setting .decoderPrefix => "--decoder-prefix <DECODER_PREFIX>"
  | .setting .encoderPrefix => "--encoder-prefix <ENCODER_PREFIX>"
  | name => "--" ++ name.text

def Request.ofLetter? (c : Char) : Option Request :=
  if c = 'h' then some .help else if c = 'V' then some .version else none

def versionText : String := "json-guess 0.1.0\n"

def helpText : String :=
  "Guesses a type signature for each field of an example JSON value\n" ++
  "\n" ++
  "Usage: json-guess [OPTIONS] [INPUT]\n" ++
  "\n" ++
  "Arguments:\n" ++
  "  [INPUT]  Where to read the example from. Dash (hyphen) indicates stdin [default: -]\n" ++
  "\n" ++
  "Options:\n" ++
  "      --camel-case\n" ++
  "          Print field names in camelCase instead of as they appear in the input\n" ++
  "      --codecs\n" ++
  "          Also print the decoder and encoder names each field would use\n" ++
  "      --mark-placeholders\n" ++
  "          Flag guesses that a single example couldn't pin down (null, empty list, nested object)\n" ++
  "      --decoder-prefix <DECODER_PREFIX>\n" ++
  "          Prefix for decoders of custom types [default: decode]\n" ++
  "      --encoder-prefix <ENCODER_PREFIX>\n" ++
  "          Prefix for encoders of custom types [default: encode]\n" ++
  "  -h, --help\n" ++
  "          Print help\n" ++
  "  -V, --version\n" ++
  "          Print version\n"

/-- The answer to a request, or the message about what is wrong, in which an argument is shown as `shown` has it. -/
def Halt.messageWith (shown : String → String) : Halt → String
  | .requested .help => helpText
  | .requested .version => versionText
  | .unexpectedArgument argument => "error: unexpected argument '" ++ shown argument ++ "' found"
  | .repeated name => "error: the argument '" ++ name.usage ++ "' cannot be used multiple times"
  | .missingValue setting =>
    "error: a value is required for '" ++ (Name.setting setting).usage ++ "' but none was supplied"
  | .unexpectedValue value name =>
    "error: unexpected value '" ++ shown value ++ "' for '" ++ name.usage ++ "' found; no more were expected"

def Halt.streamed (halt : Halt) : String := halt.messageWith Terminal.streamed

/-- The arguments taken so far. -/
structure Taken where
  input : Option String
  flags : List Flag
  settings : List (Setting × String)
  /-- A setting whose value is the next argument, or was the last one. It is entered when the next argument
  that can be taken comes. -/
  pending : Option (Setting × Option String)
  /-- Behind two dashes, where every argument is an input. -/
  onlyInputs : Bool
  deriving DecidableEq, Repr

namespace Taken

def none : Taken := ⟨.none, [], [], .none, false⟩

def enter (taken : Taken) (setting : Setting) (value : String) : Except Halt Taken :=
  if (taken.settings.lookup setting).isSome then .error (.repeated (.setting setting))
  else .ok { taken with settings := (setting, value) :: taken.settings }

def settle (taken : Taken) : Except Halt Taken :=
  match taken.pending with
  | .none => .ok taken
  | some (setting, .none) => .error (.missingValue setting)
  | some (setting, some value) => { taken with pending := .none }.enter setting value

def takeInput (taken : Taken) (argument : String) : Except Halt Taken :=
  match taken.input with
  | some _ => .error (.unexpectedArgument argument)
  | .none => do
    let taken ← taken.settle
    pure { taken with input := some argument }

def takeName (taken : Taken) : Name → Option String → Except Halt Taken
  | .setting setting, some value => do
    let taken ← taken.settle
    taken.enter setting value
  | .setting setting, .none => do
    let taken ← taken.settle
    pure { taken with pending := some (setting, .none) }
  | name, some value => .error (.unexpectedValue value name)
  | .flag flag, .none => do
    let taken ← taken.settle
    if flag ∈ taken.flags then .error (.repeated (.flag flag))
    else pure { taken with flags := flag :: taken.flags }
  | .request request, .none => do
    let _ ← taken.settle
    .error (.requested request)

/-- What is behind two dashes: a name, and a value behind the first equals sign. -/
def takeLong (taken : Taken) (body : List Char) : Except Halt Taken :=
  let name := String.ofList (body.takeWhile (· ≠ '='))
  let value :=
    match body.dropWhile (· ≠ '=') with
    | [] => Option.none
    | _ :: value => some (String.ofList value)
  match Name.ofText? name with
  | some name => taken.takeName name value
  | .none => .error (.unexpectedArgument ("--" ++ name))

/-- The first letter behind one dash. -/
def takeShort (taken : Taken) (c : Char) : Except Halt Taken :=
  match Request.ofLetter? c with
  | some request => taken.takeName (.request request) .none
  | .none => .error (.unexpectedArgument (String.ofList ['-', c]))

def take (taken : Taken) (argument : String) : Except Halt Taken :=
  if taken.onlyInputs then taken.takeInput argument
  else
    match argument.toList with
    | ['-', '-'] => .ok { taken with onlyInputs := true }
    | '-' :: '-' :: body => taken.takeLong body
    | '-' :: c :: _ => taken.takeShort c
    | _ =>
      match taken.pending with
      | some (setting, .none) => .ok { taken with pending := some (setting, some argument) }
      | _ => taken.takeInput argument

def options (taken : Taken) : Options where
  input := taken.input.getD "-"
  camelCase := taken.flags.contains .camelCase
  codecs := taken.flags.contains .codecs
  markPlaceholders := taken.flags.contains .markPlaceholders
  decoderPrefix := (taken.settings.lookup .decoderPrefix).getD "decode"
  encoderPrefix := (taken.settings.lookup .encoderPrefix).getD "encode"

end Taken

def parse (arguments : List String) : Except Halt Options := do
  let taken ← arguments.foldlM Taken.take Taken.none
  let taken ← taken.settle
  pure taken.options

end CommandLine

end TypeSketch
