import TypeSketch.Run

/-! The program. It gathers what a run is given and leaves the outcome of the run; all else is in `run`. -/
namespace TypeSketch.Program

def systemError : IO.Error → SystemError
  | .alreadyExists _ code details | .noFileOrDirectory _ code details
  | .interrupted _ code details | .invalidArgument _ code details
  | .permissionDenied _ code details | .resourceExhausted _ code details
  | .inappropriateType _ code details | .noSuchThing _ code details
  | .otherError code details | .resourceBusy code details | .resourceVanished code details
  | .unsupportedOperation code details | .hardwareFault code details
  | .unsatisfiedConstraints code details | .illegalOperation code details
  | .protocolError code details | .timeExpired code details => ⟨code.toNat, details⟩
  | .userError details => ⟨0, details⟩
  | .unexpectedEof => ⟨0, "unexpected end of file"⟩

def deliveries (read : USize → IO ByteArray) : IO Stream := do
  let mut gathered : Stream := []
  repeat
    try
      let piece ← read 65536
      gathered := .bytes piece.toList :: gathered
      if piece.isEmpty then break
    catch
    | .interrupted .. => gathered := .interrupted :: gathered
    | error =>
      gathered := .failed (systemError error) :: gathered
      break
  return gathered.reverse

def openInput (name : String) : IO (Except SystemError Stream) := do
  try
    if name = "-" then
      let input ← IO.getStdin
      return .ok (← deliveries input.read)
    let handle ← IO.FS.Handle.mk name .read
    return .ok (← deliveries handle.read)
  catch error => return .error (systemError error)

end TypeSketch.Program

open TypeSketch in
/-- Runs the program on its arguments. -/
def main (arguments : List String) : IO UInt32 := do
  let input ←
    match CommandLine.parse arguments with
    | .ok options => Program.openInput options.input
    | .error _ => pure (.ok [])
  let environment : Environment :=
    { logging := ← IO.getEnv "RUST_LOG"
      standardInput := input.toOption.getD []
      openFile := fun _ => input }
  let outcome := run environment arguments
  IO.eprint outcome.errors
  IO.print outcome.output
  return outcome.code.toUInt32
