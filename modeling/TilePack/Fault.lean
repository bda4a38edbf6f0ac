import TilePack.Fault.SystemText
import TilePack.Settings

/-! Faults of the outside world: what a read, a write or a path lookup can report.
A fault of the system carries its number, any other its kind. A job that fails tells
which fault it met, and the words for it. -/
namespace TilePack

/-- Kinds of faults that have no system number. -/
inductive FaultKind where
  | notFound
  | permissionDenied
  | connectionReset
  | brokenPipe
  | wouldBlock
  | invalidInput
  | invalidData
  | timedOut
  | writeZero
  | interrupted
  | unexpectedEof
  | outOfMemory
  | other
  deriving DecidableEq

/-- The text of a kind that comes without one of its own. -/
def FaultKind.text : FaultKind → String
  | .notFound => "entity not found"
  | .permissionDenied => "permission denied"
  | .connectionReset => "connection reset"
  | .brokenPipe => "broken pipe"
  | .wouldBlock => "operation would block"
  | .invalidInput => "invalid input parameter"
  | .invalidData => "invalid data"
  | .timedOut => "timed out"
  | .writeZero => "write zero"
  | .interrupted => "operation interrupted"
  | .unexpectedEof => "unexpected end of file"
  | .outOfMemory => "out of memory"
  | .other => "other error"

inductive Fault where
  | system (code : Nat)
  | plain (kind : FaultKind)
  | worded (kind : FaultKind) (text : String)
  deriving DecidableEq

namespace Fault

def text : Fault → String
  | .system code => s!"{systemText code} (os error {code})"
  | .plain kind => kind.text
  | .worded _ text => text

/-- Interrupted calls are made again, by readers and by writers. -/
def isInterrupted : Fault → Bool
  | .system code => code == 4
  | .plain kind => kind == .interrupted
  | .worded kind _ => kind == .interrupted

/-! The faults that this library itself reports. -/

def missing : Fault := .system 2
def notDirectory : Fault := .system 20
def isDirectory : Fault := .system 21
def noSpace : Fault := .system 28
def nameTooLong : Fault := .system 36
def nulInName : Fault := .worded .invalidInput "file name contained an unexpected NUL byte"
def writeZero : Fault := .worded .writeZero "failed to write whole buffer"

end Fault

/-- Why a packing job fails. -/
inductive Failure where
  | io (fault : Fault)
  | read (path : String) (fault : Fault)
  | write (path : String) (fault : Fault)
  | flaggedByte (offset : Nat) (value : UInt8)
  | settings (text : String)
  | report (text : String)
  deriving DecidableEq

namespace Failure

def ofSettings (error : SettingsError) : Failure := .settings error.message

/-- A byte as two upper-case hexadecimal digits. -/
def hexByte (value : UInt8) : String :=
  let digits := (Nat.toDigits 16 value.toNat).map Char.toUpper
  String.ofList (if value < 16 then '0' :: digits else digits)

def message : Failure → String
  | .io fault => s!"I/O error: {fault.text}"
  | .read path fault => s!"Failed to read {path}: {fault.text}"
  | .write path fault => s!"Failed to write {path}: {fault.text}"
  | .flaggedByte offset value =>
    s!"Byte 0x{hexByte value} at offset {offset} has bit 7 set and cannot be encoded losslessly"
  | .settings text => s!"Configuration error: {text}"
  | .report text => s!"Failed to serialize report: {text}"

/-- The text of the underlying cause, where there is one. -/
def cause? : Failure → Option String
  | .io fault => some fault.text
  | .read _ fault => some fault.text
  | .write _ fault => some fault.text
  | .flaggedByte _ _ => none
  | .settings _ => none
  | .report text => some text

end Failure

end TilePack
