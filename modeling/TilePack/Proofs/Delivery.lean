import TilePack.Proofs.Feeds
import TilePack.Proofs.Packing

/-! Packing from a feed to a sink, told by the sink's script. A buffer is delivered up to
the first call that stops it, the sink keeps what was taken by then, and nothing
reaches the sink unless the input was read and accepted. -/
namespace TilePack

namespace Acceptance

/-- The fault that a write call ends in. Taking nothing is one, an interruption is none. -/
def stop? : Acceptance → Option Fault
  | .upTo limit => if limit = 0 then some .writeZero else none
  | .fault cause => if cause.isInterrupted then none else some cause

/-- How many bytes a write call has room for. -/
def room : Acceptance → Nat
  | .upTo limit => limit
  | .fault _ => 0

/-- How many bytes a list of write calls has room for. -/
def totalRoom : List Acceptance → Nat
  | [] => 0
  | call :: rest => call.room + totalRoom rest

end Acceptance

/-- A script stops a buffer of `size` bytes: the calls before some call go on and leave
bytes to offer, and that call ends in the fault. -/
def Stops (script : List Acceptance) (size : Nat) (fault : Fault) : Prop :=
  ∃ before call after, script = before ++ call :: after ∧
    (∀ earlier ∈ before, earlier.stop? = none) ∧ call.stop? = some fault ∧
    Acceptance.totalRoom before < size

theorem not_stops_nil (size : Nat) (fault : Fault) : ¬ Stops [] size fault := by
  rintro ⟨before, call, after, split, -⟩
  simp at split

theorem not_stops_zero (script : List Acceptance) (fault : Fault) : ¬ Stops script 0 fault := by
  rintro ⟨before, call, after, -, -, -, left⟩
  exact Nat.not_lt_zero _ left

theorem stops_cons_of_stop {call : Acceptance} {own : Fault} (stopped : call.stop? = some own)
    (script : List Acceptance) {size : Nat} (left : 0 < size) (fault : Fault) :
    Stops (call :: script) size fault ↔ own = fault := by
  constructor
  · rintro ⟨before, last, after, split, going, ended, -⟩
    cases before with
    | nil =>
      obtain ⟨rfl, -⟩ := List.cons.inj split
      exact Option.some.inj (stopped.symm.trans ended)
    | cons first before =>
      obtain ⟨rfl, -⟩ := List.cons.inj split
      rw [going call (by simp)] at stopped
      cases stopped
  · rintro rfl
    exact ⟨[], call, script, rfl, by simp, stopped, left⟩

theorem stops_cons_of_going {call : Acceptance} (going : call.stop? = none)
    (script : List Acceptance) (size : Nat) (fault : Fault) :
    Stops (call :: script) size fault ↔ Stops script (size - call.room) fault := by
  constructor
  · rintro ⟨before, last, after, split, earlier, ended, left⟩
    cases before with
    | nil =>
      obtain ⟨rfl, -⟩ := List.cons.inj split
      rw [going] at ended
      cases ended
    | cons first before =>
      obtain ⟨rfl, rest⟩ := List.cons.inj split
      refine ⟨before, last, after, rest, ?_, ended, ?_⟩
      · exact fun other member => earlier other (by simp [member])
      · simp only [Acceptance.totalRoom] at left
        omega
  · rintro ⟨before, last, after, split, earlier, ended, left⟩
    refine ⟨call :: before, last, after, by rw [split]; rfl, ?_, ended, ?_⟩
    · exact List.forall_mem_cons.mpr ⟨going, earlier⟩
    · simp only [Acceptance.totalRoom]
      omega

/-- Delivery fails if the script stops it, with the fault it stops with. -/
theorem fault_deliver_eq_some_iff (script : List Acceptance) (bytes : List UInt8) (fault : Fault) :
    (deliver script bytes).fault = some fault ↔ Stops script bytes.length fault := by
  fun_induction deliver script bytes with
  | case1 script => simp [not_stops_zero]
  | case2 bytes _ => simp [not_stops_nil]
  | case3 script bytes offered =>
    have left := List.length_pos_iff.mpr offered
    have stopped : (Acceptance.upTo 0).stop? = some .writeZero := rfl
    rw [stops_cons_of_stop stopped script left]
    exact Option.some_inj
  | case4 limit script bytes _ positive rest ih =>
    have going : (Acceptance.upTo limit).stop? = none := by simp [Acceptance.stop?, positive]
    rw [stops_cons_of_going going]
    rw [List.length_drop] at ih
    exact ih
  | case5 cause script bytes _ interrupted rest ih =>
    have going : (Acceptance.fault cause).stop? = none := by simp [Acceptance.stop?, interrupted]
    rw [stops_cons_of_going going]
    exact ih
  | case6 cause script bytes offered lasting =>
    have left := List.length_pos_iff.mpr offered
    have stopped : (Acceptance.fault cause).stop? = some cause := by
      simp [Acceptance.stop?, lasting]
    rw [stops_cons_of_stop stopped script left]
    exact Option.some_inj

/-- What is taken stands at the front of what was offered, and is all of it if nothing
stopped the delivery. -/
theorem taken_deliver (script : List Acceptance) (bytes : List UInt8) :
    (deliver script bytes).taken <+: bytes ∧
      ((deliver script bytes).taken = bytes ↔ (deliver script bytes).fault = none) := by
  fun_induction deliver script bytes with
  | case1 script => simp
  | case2 bytes _ => simp
  | case3 script bytes offered => simp [Ne.symm offered]
  | case4 limit script bytes _ _ rest ih =>
    obtain ⟨front, whole⟩ := ih
    have split := List.take_append_drop limit bytes
    have extended := (List.prefix_append_right_inj (bytes.take limit)).mpr front
    have same : bytes.take limit ++ rest.taken = bytes.take limit ++ bytes.drop limit ↔
        rest.taken = bytes.drop limit := List.append_right_inj _
    rw [split] at extended same
    exact ⟨extended, same.trans whole⟩
  | case5 cause script bytes _ _ rest ih => exact ih
  | case6 cause script bytes offered _ => simp [Ne.symm offered]

/-- An operation that a fault may stop. -/
def outcome : Option Fault → Except Fault Unit
  | none => .ok ()
  | some fault => .error fault

@[simp] theorem outcome_eq_ok_iff {fault? : Option Fault} :
    outcome fault? = .ok () ↔ fault? = none := by
  cases fault? <;> simp [outcome]

@[simp] theorem outcome_eq_error_iff {fault? : Option Fault} {fault : Fault} :
    outcome fault? = .error fault ↔ fault? = some fault := by
  cases fault? <;> simp [outcome]

namespace Sink

/-- The fault of the next flush, if it has one. -/
def nextFlush? (sink : Sink) : Option Fault := sink.flushes.head?.join

theorem flush_eq (sink : Sink) :
    sink.flush = (outcome sink.nextFlush?,
      { sink with flushCalls := sink.flushCalls + 1, flushes := sink.flushes.drop 1 }) := by
  unfold flush nextFlush?
  cases sink.flushes with
  | nil => rfl
  | cons next later => cases next <;> rfl

theorem writeAll_eq (sink : Sink) (bytes : List UInt8) :
    sink.writeAll bytes = (outcome (deliver sink.writes bytes).fault,
      { sink with
        written := sink.written ++ (deliver sink.writes bytes).taken
        writeCalls := sink.writeCalls + (deliver sink.writes bytes).calls
        writes := (deliver sink.writes bytes).script }) := by
  unfold writeAll
  cases stopped : (deliver sink.writes bytes).fault <;> simp [stopped, outcome]

theorem writeAll_eq_error_iff {sink : Sink} {bytes : List UInt8} {fault : Fault} :
    (sink.writeAll bytes).1 = .error fault ↔ Stops sink.writes bytes.length fault := by
  rw [writeAll_eq, outcome_eq_error_iff, fault_deliver_eq_some_iff]

theorem written_writeAll (sink : Sink) (bytes : List UInt8) :
    ∃ added, (sink.writeAll bytes).2.written = sink.written ++ added ∧ added <+: bytes ∧
      (added = bytes ↔ (sink.writeAll bytes).1 = .ok ()) := by
  obtain ⟨front, whole⟩ := taken_deliver sink.writes bytes
  refine ⟨(deliver sink.writes bytes).taken, ?_, front, ?_⟩
  · rw [writeAll_eq]
  · rw [writeAll_eq, outcome_eq_ok_iff, whole]

@[simp] theorem flushCalls_writeAll (sink : Sink) (bytes : List UInt8) :
    (sink.writeAll bytes).2.flushCalls = sink.flushCalls := by
  rw [writeAll_eq]

@[simp] theorem nextFlush?_writeAll (sink : Sink) (bytes : List UInt8) :
    (sink.writeAll bytes).2.nextFlush? = sink.nextFlush? := by
  rw [writeAll_eq]
  rfl

end Sink

namespace Policy

/-- The policy refuses input with a flagged byte. -/
def Rejects (policy : Policy) (data : List UInt8) : Prop :=
  policy = .reject ∧ ∃ byte ∈ data, isFlagged byte = true

theorem refusal?_of_rejects {policy : Policy} {data : List UInt8} (rejects : policy.Rejects data) :
    ∃ offset value, FirstFlagged data offset value ∧
      policy.refusal? data = some (.flaggedByte offset value) := by
  obtain ⟨rfl, present⟩ := rejects
  obtain ⟨offset, value, first⟩ := (exists_firstFlagged_iff data).mpr present
  exact ⟨offset, value, first, refusal?_of_first first⟩

theorem refusal?_of_not_rejects {policy : Policy} {data : List UInt8}
    (passes : ¬ policy.Rejects data) : policy.refusal? data = none := by
  cases policy with
  | allow => rfl
  | warn => rfl
  | reject =>
    apply refusal?_of_plain
    intro byte member
    cases flagged : isFlagged byte with
    | false => rfl
    | true => exact absurd ⟨rfl, byte, member, flagged⟩ passes

end Policy

section Pump

variable {settings : Settings} {feed : Feed} {sink : Sink} {data : List UInt8}

theorem pump_of_unread {fault : Fault} (failed : feed.readAll = .error fault) :
    pump settings feed sink = (⟨.error (.io fault), []⟩, sink) := by
  simp [pump, failed]

theorem pump_of_refused {failure : Failure} (read : feed.readAll = .ok data)
    (refused : settings.policy.refusal? data = some failure) :
    pump settings feed sink = (⟨.error failure, []⟩, sink) := by
  simp [pump, read, pack_of_refused refused]

theorem pump_of_stopped {fault : Fault} (read : feed.readAll = .ok data)
    (accepted : settings.policy.refusal? data = none)
    (stopped : (sink.writeAll (encode data)).1 = .error fault) :
    (pump settings feed sink).1.value = .error (.io fault) ∧
      (pump settings feed sink).2 = (sink.writeAll (encode data)).2 := by
  rcases found : sink.writeAll (encode data) with ⟨result, after⟩
  rw [found] at stopped
  obtain rfl : result = .error fault := stopped
  simp [pump, read, pack_of_accepted accepted, Progress.bytes_finish_ofBytes, found]

/-- Once all is written the sink is flushed, and the flush decides. -/
theorem pump_of_written (read : feed.readAll = .ok data)
    (accepted : settings.policy.refusal? data = none)
    (written : (sink.writeAll (encode data)).1 = .ok ()) :
    (pump settings feed sink).1.value =
        (match sink.nextFlush? with
          | none => .ok (Progress.ofBytes data).finish.tally
          | some fault => .error (.io fault)) ∧
      (pump settings feed sink).2 = (sink.writeAll (encode data)).2.flush.2 := by
  have same := sink.nextFlush?_writeAll (encode data)
  rcases found : sink.writeAll (encode data) with ⟨result, after⟩
  rw [found] at written same
  obtain rfl : result = .ok () := written
  rw [← same]
  cases flushed : after.nextFlush? <;>
    simp [pump, read, pack_of_accepted accepted, Progress.bytes_finish_ofBytes, found,
      Sink.flush_eq, flushed, outcome]

theorem written_pump (read : feed.readAll = .ok data)
    (accepted : settings.policy.refusal? data = none) :
    (pump settings feed sink).2.written = (sink.writeAll (encode data)).2.written := by
  cases write : (sink.writeAll (encode data)).1 with
  | error fault => rw [(pump_of_stopped read accepted write).2]
  | ok _ => rw [(pump_of_written read accepted write).2, Sink.flush_eq]

end Pump

/-- How a job ends. Input that cannot be read or is rejected leaves the sink alone, other
input reaches it packed, up to the call that stops the writing. -/
theorem pump_outcome (settings : Settings) (feed : Feed) (sink : Sink) :
    let result := (pump settings feed sink).1.value
    let after := (pump settings feed sink).2
    (∀ data, feed.readAll = .ok data ↔ feed.Steady ∧ feed.delivered = data) ∧
    (∀ fault, feed.readAll = .error fault ↔ feed.Breaks fault) ∧
    (∀ fault, feed.readAll = .error fault → result = .error (.io fault) ∧ after = sink) ∧
    (∀ data, feed.readAll = .ok data → settings.policy.Rejects data →
      (∃ offset value, FirstFlagged data offset value ∧
        result = .error (.flaggedByte offset value)) ∧ after = sink) ∧
    (∀ data, feed.readAll = .ok data → ¬ settings.policy.Rejects data →
      let write := (sink.writeAll (encode data)).1
      (∀ fault, write = .error fault ↔ Stops sink.writes (encode data).length fault) ∧
      ∃ added, after.written = sink.written ++ added ∧ added <+: encode data ∧
        (added ≠ encode data ↔ ∃ fault, write = .error fault) ∧
        (∀ fault, write = .error fault →
          result = .error (.io fault) ∧ after.flushCalls = sink.flushCalls) ∧
        (write = .ok () →
          added = encode data ∧ after.flushCalls = sink.flushCalls + 1 ∧
          ∃ packed, (pack settings data).value = .ok packed ∧
            (result = .ok packed.tally ↔ sink.nextFlush? = none) ∧
            ∀ fault, sink.nextFlush? = some fault → result = .error (.io fault))) := by
  intro result after
  refine ⟨fun data => Feed.readAll_eq_ok_iff, fun fault => Feed.readAll_eq_error_iff, ?_, ?_, ?_⟩
  · intro fault failed
    have ended : pump settings feed sink = _ := pump_of_unread failed
    simp [result, after, ended]
  · intro data read rejects
    obtain ⟨offset, value, first, refused⟩ := Policy.refusal?_of_rejects rejects
    have ended : pump settings feed sink = _ := pump_of_refused read refused
    exact ⟨⟨offset, value, first, by simp [result, ended]⟩, by simp [after, ended]⟩
  · intro data read passes write
    have accepted := Policy.refusal?_of_not_rejects passes
    obtain ⟨added, kept, front, whole⟩ := sink.written_writeAll (encode data)
    refine ⟨fun fault => Sink.writeAll_eq_error_iff, added, ?_, front, ?_, ?_, ?_⟩
    · exact (written_pump read accepted).trans kept
    · change ¬ added = encode data ↔ ∃ fault, (sink.writeAll (encode data)).1 = .error fault
      rw [whole]
      cases (sink.writeAll (encode data)).1 <;> simp
    · intro fault failed
      obtain ⟨told, left⟩ := pump_of_stopped read accepted failed
      exact ⟨told, by simp [after, left]⟩
    · intro written
      obtain ⟨told, left⟩ := pump_of_written read accepted written
      refine ⟨whole.mpr written, ?_, (Progress.ofBytes data).finish, ?_, ?_, ?_⟩
      · simp [after, left, Sink.flush_eq]
      · rw [pack_of_accepted accepted]
      · change (pump settings feed sink).1.value = _ ↔ _
        rw [told]
        cases sink.nextFlush? <;> simp
      · intro fault flushed
        rw [flushed] at told
        exact told

/-- A pipe that breaks after one byte of two leaves that byte and no flush. -/
theorem pump_outcome_broken_pipe :
    let feed : Feed := [.bytes [5, 5], .fault (.system 4), .bytes [5]]
    let sink : Sink := { writes := [.fault (.system 4), .upTo 1, .fault (.plain .brokenPipe)] }
    feed.Steady ∧ feed.delivered = [5, 5, 5] ∧ encode [5, 5, 5] = [0x85, 3] ∧
      Stops sink.writes 2 (.plain .brokenPipe) ∧
      (pump {} feed sink).1.value = .error (.io (.plain .brokenPipe)) ∧
      (pump {} feed sink).2.flushCalls = 0 := by
  intro feed sink
  have steady : feed.Steady := by decide
  have passes : ¬ Policy.Rejects .warn [5, 5, 5] := by simp [Policy.Rejects]
  have packed : encode [5, 5, 5] = [0x85, 3] := by decide +kernel
  have stops : Stops sink.writes 2 (.plain .brokenPipe) := by
    refine ⟨[.fault (.system 4), .upTo 1], .fault (.plain .brokenPipe), [], rfl, ?_, rfl, ?_⟩
    · simp [Acceptance.stop?, Fault.isInterrupted]
    · decide
  obtain ⟨reads, -, -, -, accepted⟩ := pump_outcome {} feed sink
  obtain ⟨fails, added, -, -, -, stopped, -⟩ :=
    accepted [5, 5, 5] ((reads _).mpr ⟨steady, rfl⟩) passes
  rw [packed] at fails stopped
  exact ⟨steady, rfl, packed, stops, stopped _ ((fails _).mpr stops)⟩

end TilePack
