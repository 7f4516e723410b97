import TypeSketch.Text.Segments
import TypeSketch.Text.Casing
import TypeSketch.Signature

/-! The names of the decoders and encoders of a type. The words of a type's text are the names of codecs: those that
the JSON library has are qualified with its module, any other is made up from a prefix or a suffix. -/
namespace TypeSketch

/-- The names of the codecs that the JSON library has. -/
structure KnownCodecs where
  names : List String
  deriving DecidableEq, Repr

namespace KnownCodecs

def standard : KnownCodecs := ⟨["maybe", "list", "int", "float", "bool", "string"]⟩

def decodeModule : String := "Json.Decode."

def encodeModule : String := "Json.Encode."

def isKnown (known : KnownCodecs) (name : String) : Bool := known.names.contains name

/-- Changes a text word by word, with one space between the words. -/
def mapWords (f : List Char → List Char) (text : String) : String :=
  String.ofList (joinWords ((words text.toList).map f))

/-- A known name behind its module, any other capitalized behind `front`. -/
def qualifyWord (known : KnownCodecs) (front library : String) (word : List Char) : List Char :=
  if known.isKnown (String.ofList word) then library.toList ++ word
  else front.toList ++ capitalize word

def qualify (known : KnownCodecs) (front codec library : String) : String :=
  mapWords (known.qualifyWord front library) codec

/-- A known name as it is, any other before `back`. -/
def extendWord (known : KnownCodecs) (back : String) (word : List Char) : List Char :=
  if known.isKnown (String.ofList word) then word else word ++ back.toList

def extend (known : KnownCodecs) (back codec : String) : String :=
  mapWords (known.extendWord back) codec

end KnownCodecs

/-- The codec of a type, unqualified: its text in lower case. -/
def Signature.codec (signature : Signature) : String :=
  String.ofList (lowercase signature.text.toList)

end TypeSketch
