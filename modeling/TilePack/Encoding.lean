import TilePack.Scanner

/-! Packing a byte string: its records, their wire form, and the size of the
result. The buffer version appends and touches nothing before it. -/
namespace TilePack

/-- The records of a byte string, in order. -/
def records (data : List UInt8) : List Record := (Scanner.ofBytes data).toList

def encode (data : List UInt8) : List UInt8 := (records data).flatMap Record.wire

/-- Append the packed form of `data` to a buffer. -/
def encodeOnto (buffer : Array UInt8) (data : List UInt8) : Array UInt8 :=
  (records data).foldl Record.pushOnto buffer

/-- The size of a list of records on the wire. -/
def wireSize (records : List Record) : Nat :=
  records.foldl (fun total record => total + record.wireLength) 0

/-- The size of the packed form, without building it. -/
def encodedLength (data : List UInt8) : Nat := wireSize (records data)

@[simp] theorem records_nil : records [] = [] := rfl

@[simp] theorem encodedLength_nil : encodedLength [] = 0 := rfl

private theorem foldl_pushOnto (records : List Record) (buffer : Array UInt8) :
    (records.foldl Record.pushOnto buffer).toList =
      buffer.toList ++ records.flatMap Record.wire := by
  induction records generalizing buffer with
  | nil => simp
  | cons record rest ih => simp [ih]

private theorem foldl_wireLength (records : List Record) (total : Nat) :
    records.foldl (fun total record => total + record.wireLength) total =
      total + (records.flatMap Record.wire).length := by
  induction records generalizing total with
  | nil => simp
  | cons record rest ih => simp [ih, Nat.add_assoc]

@[simp] theorem length_flatMap_wire (records : List Record) :
    (records.flatMap Record.wire).length = wireSize records := by
  rw [wireSize, foldl_wireLength, Nat.zero_add]

theorem length_encode (data : List UInt8) : (encode data).length = encodedLength data :=
  length_flatMap_wire (records data)

@[simp] theorem wireSize_nil : wireSize [] = 0 := rfl

@[simp] theorem wireSize_cons (record : Record) (records : List Record) :
    wireSize (record :: records) = record.wireLength + wireSize records := by
  simp [← length_flatMap_wire]

theorem wireSize_append (first second : List Record) :
    wireSize (first ++ second) = wireSize first + wireSize second := by
  rw [← length_flatMap_wire, List.flatMap_append, List.length_append, length_flatMap_wire,
    length_flatMap_wire]

@[simp] theorem toList_encodeOnto (buffer : Array UInt8) (data : List UInt8) :
    (encodeOnto buffer data).toList = buffer.toList ++ encode data :=
  foldl_pushOnto (records data) buffer

/-! Packing as one pass that pushes: each byte goes through a small machine that
appends finished runs to its output at once. It knows nothing of records. -/

/-- The run being counted. -/
structure ActiveRun where
  value : UInt8
  count : Nat
  deriving DecidableEq

structure Committer where
  active : Option ActiveRun := none
  output : List UInt8 := []
  deriving DecidableEq

namespace Committer

/-- Append a finished run: one byte for itself, more as a marker and a count. -/
def commit (output : List UInt8) (run : ActiveRun) : List UInt8 :=
  if run.count = 1 then output ++ [run.value] else output ++ [mark run.value, run.count.toUInt8]

/-- A byte opens a run, extends it, or commits it and opens the next. A full run is
committed by the next byte of the same value too. -/
def push (machine : Committer) (byte : UInt8) : Committer :=
  match machine.active with
  | none => { machine with active := some ⟨byte, 1⟩ }
  | some run =>
    if byte = run.value then
      if run.count = 255 then ⟨some ⟨byte, 1⟩, commit machine.output run⟩
      else { machine with active := some { run with count := run.count + 1 } }
    else ⟨some ⟨byte, 1⟩, commit machine.output run⟩

/-- Commit what is still active. -/
def finish (machine : Committer) : List UInt8 :=
  match machine.active with
  | none => machine.output
  | some run => commit machine.output run

def encode (data : List UInt8) : List UInt8 := (data.foldl push {}).finish

end Committer

/-! A working buffer and the steps that change it: packed data appended, single
records written, raw bytes pushed or cut off. -/
namespace Session

inductive Step where
  | encode (data : List UInt8)
  | encodeOnto (data : List UInt8)
  | encodeBuffer
  | measureBuffer
  | write (record : Record)
  | push (data : List UInt8)
  | truncate (size : Nat)

inductive Reply where
  | silent
  | packed (bytes : List UInt8)
  | size (value : Nat)
  | written
  | refused (cause : ShortRun)
  deriving DecidableEq

/-- One step on the buffer. After a refusal the session goes on with what is in it. -/
def step (buffer : Array UInt8) : Step → Reply × Array UInt8
  | .encode data => (.packed (TilePack.encode data), buffer)
  | .encodeOnto data => (.silent, TilePack.encodeOnto buffer data)
  | .encodeBuffer => (.silent, (TilePack.encode buffer.toList).toArray)
  | .measureBuffer => (.size (encodedLength buffer.toList), buffer)
  | .write record =>
    match record.emit.run buffer with
    | .ok () buffer => (.written, buffer)
    | .error cause buffer => (.refused cause, buffer)
  | .push data => (.silent, buffer ++ data)
  | .truncate size => (.silent, buffer.take size)

/-- Replies and the buffer after each step. -/
def run (buffer : Array UInt8) : List Step → List (Reply × Array UInt8)
  | [] => []
  | first :: rest =>
    let (reply, buffer) := step buffer first
    (reply, buffer) :: run buffer rest

/-- The buffer after all steps. -/
def finish (buffer : Array UInt8) (steps : List Step) : Array UInt8 :=
  steps.foldl (fun buffer next => (step buffer next).2) buffer

end Session

end TilePack
