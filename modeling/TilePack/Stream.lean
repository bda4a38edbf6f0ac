import TilePack.Packing

/-! Packing from a feed to a sink. Both are scripts of what the outside world does:
a feed delivers chunks or faults, a sink takes so many bytes of each call or fails. -/
namespace TilePack

inductive Chunk where
  | bytes (data : List UInt8)
  | fault (fault : Fault)

abbrev Feed := List Chunk

/-- Read to the end. An empty chunk is the end of the input, interrupted reads are
made again, and any other fault loses what was read. -/
def Feed.readAll : Feed → Except Fault (List UInt8)
  | [] => .ok []
  | .bytes [] :: _ => .ok []
  | .bytes data :: rest => (readAll rest).map (data ++ ·)
  | .fault fault :: rest => if fault.isInterrupted then readAll rest else .error fault

/-- What the sink does with one write call. -/
inductive Acceptance where
  | upTo (limit : Nat)
  | fault (fault : Fault)

/-- How a whole buffer fared: the bytes that were taken, the calls made, the script
left for later calls, and the fault that stopped it. -/
structure Delivery where
  taken : List UInt8
  calls : Nat
  script : List Acceptance
  fault : Option Fault

/-- Offer bytes until all are taken. Nothing to write makes no call, a call that
takes nothing is a fault, and a sink without a script takes all it is offered. -/
def deliver : List Acceptance → List UInt8 → Delivery
  | script, [] => ⟨[], 0, script, none⟩
  | [], bytes => ⟨bytes, 1, [], none⟩
  | .upTo limit :: script, bytes =>
    if limit = 0 then ⟨[], 1, script, some .writeZero⟩
    else
      let rest := deliver script (bytes.drop limit)
      { rest with taken := bytes.take limit ++ rest.taken, calls := rest.calls + 1 }
  | .fault fault :: script, bytes =>
    if fault.isInterrupted then
      let rest := deliver script bytes
      { rest with calls := rest.calls + 1 }
    else ⟨[], 1, script, some fault⟩

/-- A sink holds what it took, counts the calls, and knows how later ones will fare. -/
structure Sink where
  written : List UInt8 := []
  writeCalls : Nat := 0
  flushCalls : Nat := 0
  writes : List Acceptance := []
  flushes : List (Option Fault) := []

namespace Sink

def writeAll (sink : Sink) (bytes : List UInt8) : Except Fault Unit × Sink :=
  let delivery := deliver sink.writes bytes
  let after := { sink with
    written := sink.written ++ delivery.taken
    writeCalls := sink.writeCalls + delivery.calls
    writes := delivery.script }
  match delivery.fault with
  | none => (.ok (), after)
  | some fault => (.error fault, after)

/-- One flush, never made again. -/
def flush (sink : Sink) : Except Fault Unit × Sink :=
  let after := { sink with flushCalls := sink.flushCalls + 1, flushes := sink.flushes.drop 1 }
  match sink.flushes.head? with
  | some (some fault) => (.error fault, after)
  | some none | none => (.ok (), after)

end Sink

/-- Read all of a feed, pack it, and write the result. The sink is not touched
unless the packing succeeds, nor flushed unless all was written. -/
def pump (settings : Settings) (feed : Feed) (sink : Sink) : Logged (Except Failure Tally) × Sink :=
  match feed.readAll with
  | .error fault => (⟨.error (.io fault), []⟩, sink)
  | .ok data =>
    let ⟨outcome, events⟩ := pack settings data
    match outcome with
    | .error failure => (⟨.error failure, events⟩, sink)
    | .ok packed =>
      match sink.writeAll packed.bytes with
      | (.error fault, sink) => (⟨.error (.io fault), events⟩, sink)
      | (.ok _, sink) =>
        match sink.flush with
        | (.error fault, sink) => (⟨.error (.io fault), events⟩, sink)
        | (.ok _, sink) => (⟨.ok packed.tally, events⟩, sink)

/-- A feed with the names of the settings to pack it under. -/
structure Job where
  policy : Option String := none
  report : Option String := none
  feed : Feed

/-- A job whose settings cannot be read does not start. -/
def Job.run (job : Job) (sink : Sink) : Logged (Except Failure Tally) × Sink :=
  match Settings.ofNames job.policy job.report with
  | .error error => (⟨.error (.ofSettings error), []⟩, sink)
  | .ok settings => pump settings job.feed sink

/-- Jobs one after the other on one sink, each with the sink as it left it. -/
def runJobs (sink : Sink) : List Job → List (Logged (Except Failure Tally) × Sink)
  | [] => []
  | job :: rest =>
    let (outcome, sink) := job.run sink
    (outcome, sink) :: runJobs sink rest

end TilePack
