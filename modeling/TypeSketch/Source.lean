/-! Reading a source of bytes to its end. A source hands out its bytes in pieces of any size; a read may also be
interrupted, and is then tried again, or fail, and then nothing that was read counts. -/
namespace TypeSketch

/-- What one read of a source gives. -/
inductive Delivery (ε : Type) where
  /-- Some bytes; none at all at the end of the source. -/
  | bytes (piece : List UInt8)
  | interrupted
  | failed (error : ε)

/-- The bytes of a source up to its end, where the list of deliveries ends too. -/
def readToEnd {ε : Type} : List (Delivery ε) → Except ε (List UInt8)
  | [] | .bytes [] :: _ => .ok []
  | .bytes piece :: rest => (piece ++ ·) <$> readToEnd rest
  | .interrupted :: rest => readToEnd rest
  | .failed error :: _ => .error error

/-- A failure that the system reports, by its number and its description. -/
structure SystemError where
  code : Nat
  description : String
  deriving DecidableEq, Repr

namespace SystemError

def notFound : SystemError := ⟨2, "No such file or directory"⟩
def notADirectory : SystemError := ⟨20, "Not a directory"⟩
def isADirectory : SystemError := ⟨21, "Is a directory"⟩
def nameTooLong : SystemError := ⟨36, "File name too long"⟩

def text (error : SystemError) : String :=
  error.description ++ " (os error " ++ toString error.code ++ ")"

end SystemError

/-- A source that the system opened, as what its reads give. -/
abbrev Stream := List (Delivery SystemError)

end TypeSketch
