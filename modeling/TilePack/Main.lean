import TilePack.Command.Arguments

/-! The command line on the disk: files are read and written whole, and the time of
a job is taken from the monotonic clock. -/
namespace TilePack

/-- A fault of the disk keeps the number the system gave it. -/
def Fault.ofIOError : IO.Error → Fault
  | .alreadyExists _ code _ | .invalidArgument _ code _ | .permissionDenied _ code _
  | .resourceExhausted _ code _ | .inappropriateType _ code _ | .noSuchThing _ code _
  | .interrupted _ code _ | .noFileOrDirectory _ code _ | .otherError code _
  | .resourceBusy code _ | .resourceVanished code _ | .unsupportedOperation code _
  | .hardwareFault code _ | .unsatisfiedConstraints code _ | .illegalOperation code _
  | .protocolError code _ | .timeExpired code _ => .system code.toNat
  | .unexpectedEof => .plain .unexpectedEof
  | .userError text => .worded .other text

private def catchFault (action : IO α) : IO (Except Fault α) := do
  match ← action.toBaseIO with
  | .ok value => return .ok value
  | .error error => return .error (.ofIOError error)

/-- The files of the machine. -/
def disk : Storage IO where
  read path := catchFault do
    let handle ← IO.FS.Handle.mk path .read
    return (← handle.readBinToEnd).toList
  replace path bytes := catchFault do
    let handle ← IO.FS.Handle.mk path .write
    unless bytes.isEmpty do handle.write bytes.toByteArray
    handle.flush

/-- Run an action and tell the time it took. -/
def timed (action : IO α) : IO (α × String) := do
  let start ← IO.monoNanosNow
  let value ← action
  return (value, Command.elapsedText ((← IO.monoNanosNow) - start))

end TilePack

def main (arguments : List String) : IO UInt32 := do
  let response ←
    TilePack.Command.run TilePack.Command.standard TilePack.disk TilePack.timed arguments
  IO.print response.stdout
  IO.eprint response.stderr
  return response.code
