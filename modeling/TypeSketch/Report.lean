import TypeSketch.Guess
import TypeSketch.Naming
import TypeSketch.Codec
import TypeSketch.CommandLine

/-! The report on a value: a line for each field of an object, or a single line with the guess for any other value. -/
namespace TypeSketch.Report

/-- Marks a line whose type is a placeholder, if that is asked for. -/
def mark (options : Options) (signature : Signature) (line : String) : String :=
  if options.markPlaceholders && signature.isPlaceholder then line ++ " -- placeholder" else line

def codecs (options : Options) (known : KnownCodecs) (signature : Signature) : String :=
  let decoder := known.qualify options.decoderPrefix signature.codec KnownCodecs.decodeModule
  let encoder := known.qualify options.encoderPrefix signature.codec KnownCodecs.encodeModule
  " (" ++ decoder ++ " / " ++ encoder ++ ")"

def fieldName (options : Options) (key : String) : String :=
  if options.camelCase then Naming.toCamelCase key else key

def fieldLine (options : Options) (known : KnownCodecs) (key : String) (signature : Signature) : String :=
  mark options signature <|
    fieldName options key ++ " : " ++ signature.text ++
      if options.codecs then codecs options known signature else ""

def lines (options : Options) (known : KnownCodecs) : Json → Logged (List String)
  | .object members => do
    .tell (.fields members.length)
    let guesses ← Members.signatures members
    pure (guesses.map fun guess => fieldLine options known guess.1 guess.2)
  | value => do
    let signature ← value.signature
    pure [mark options signature signature.text]

end TypeSketch.Report
