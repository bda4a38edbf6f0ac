import TilePack.Proofs.Delivery

/-! Jobs one after the other on one sink. Packed streams need no mark between them, so
what the sink holds in the end unpacks to the inputs of the jobs that were packed. -/
namespace TilePack

/-- The sink as the last job leaves it. -/
def sinkAfter (sink : Sink) (jobs : List Job) : Sink :=
  ((runJobs sink jobs).getLast?.map Prod.snd).getD sink

@[simp] theorem sinkAfter_nil (sink : Sink) : sinkAfter sink [] = sink := rfl

@[simp] theorem sinkAfter_cons (sink : Sink) (job : Job) (jobs : List Job) :
    sinkAfter sink (job :: jobs) = sinkAfter (job.run sink).2 jobs := by
  rw [sinkAfter, sinkAfter, runJobs, List.getLast?_cons]
  cases (runJobs (job.run sink).2 jobs).getLast? <;> rfl

/-- No write call of the sink stops a delivery: each takes a byte or more, or is
interrupted. -/
def Sink.Willing (sink : Sink) : Prop := ∀ call ∈ sink.writes, call.stop? = none

/-- The job rejects flagged bytes. -/
def Job.Rejecting (job : Job) : Prop :=
  ∃ report, Settings.ofNames job.policy job.report = .ok ⟨.reject, report⟩

/-- The input can be read, and can be packed without loss. -/
def Job.Lossless (job : Job) : Prop :=
  job.feed.Steady ∧ ∀ byte ∈ job.feed.delivered, byte < 0x80

instance : DecidablePred Job.Lossless := fun _ => inferInstanceAs (Decidable (_ ∧ _))

theorem script_deliver_suffix (script : List Acceptance) (bytes : List UInt8) :
    (deliver script bytes).script <:+ script := by
  fun_induction deliver script bytes with
  | case1 script => exact List.suffix_refl script
  | case2 bytes _ => exact List.suffix_refl []
  | case3 script bytes _ => exact List.suffix_cons _ script
  | case4 limit script bytes _ _ rest ih => exact ih.trans (List.suffix_cons _ script)
  | case5 cause script bytes _ _ rest ih => exact ih.trans (List.suffix_cons _ script)
  | case6 cause script bytes _ _ => exact List.suffix_cons _ script

theorem not_stops_of_willing {script : List Acceptance}
    (willing : ∀ call ∈ script, call.stop? = none) (size : Nat) (fault : Fault) :
    ¬ Stops script size fault := by
  rintro ⟨before, call, after, rfl, -, stopped, -⟩
  rw [willing call (by simp)] at stopped
  cases stopped

namespace Sink

variable {sink : Sink}

/-- A willing sink takes a whole buffer, and goes on being willing. -/
theorem Willing.writeAll (willing : sink.Willing) (bytes : List UInt8) :
    (sink.writeAll bytes).1 = .ok () ∧ (sink.writeAll bytes).2.written = sink.written ++ bytes ∧
      (sink.writeAll bytes).2.Willing := by
  obtain ⟨added, kept, -, whole⟩ := sink.written_writeAll bytes
  have done : (sink.writeAll bytes).1 = .ok () := by
    cases stopped : (sink.writeAll bytes).1 with
    | ok _ => rfl
    | error fault =>
      exact absurd (writeAll_eq_error_iff.mp stopped) (not_stops_of_willing willing _ fault)
  refine ⟨done, ?_, ?_⟩
  · rw [kept, whole.mpr done]
  · intro call member
    rw [writeAll_eq] at member
    exact willing call ((script_deliver_suffix sink.writes bytes).mem member)

end Sink

namespace Job

theorem Lossless.plain {job : Job} (lossless : job.Lossless) :
    ∀ byte ∈ job.feed.delivered, isFlagged byte = false :=
  plain_iff_lt.mpr lossless.2

theorem Rejecting.run_eq {job : Job} (rejecting : job.Rejecting) (sink : Sink) :
    ∃ report, job.run sink = pump ⟨.reject, report⟩ job.feed sink := by
  obtain ⟨report, named⟩ := rejecting
  exact ⟨report, by simp [Job.run, named]⟩

theorem Rejecting.run_of_lossless {job : Job} (rejecting : job.Rejecting) (lossless : job.Lossless)
    {sink : Sink} (willing : sink.Willing) :
    (job.run sink).2.Willing ∧
      (job.run sink).2.written = sink.written ++ encode job.feed.delivered := by
  obtain ⟨report, same⟩ := rejecting.run_eq sink
  have read := Feed.readAll_eq_ok_iff.mpr ⟨lossless.1, rfl⟩
  have accepted := Policy.refusal?_of_plain lossless.plain .reject
  obtain ⟨done, kept, still⟩ := willing.writeAll (encode job.feed.delivered)
  have left : (pump ⟨.reject, report⟩ job.feed sink).2 = _ :=
    (pump_of_written read accepted done).2
  rw [same, left, Sink.flush_eq]
  exact ⟨still, kept⟩

theorem Rejecting.run_of_not_lossless {job : Job} (rejecting : job.Rejecting)
    (lossy : ¬ job.Lossless) (sink : Sink) : (job.run sink).2 = sink := by
  obtain ⟨report, same⟩ := rejecting.run_eq sink
  rw [same]
  cases read : job.feed.readAll with
  | error fault => rw [pump_of_unread read]
  | ok data =>
    obtain ⟨steady, rfl⟩ := Feed.readAll_eq_ok_iff.mp read
    rcases firstFlagged_or_plain job.feed.delivered with ⟨offset, value, first⟩ | plain
    · rw [pump_of_refused read (Policy.refusal?_of_first first)]
    · exact absurd ⟨steady, plain_iff_lt.mp plain⟩ lossy

end Job

/-- What the sink unpacks to grows by the inputs of the lossless jobs. -/
theorem unpack_sinkAfter {jobs : List Job} (rejecting : ∀ job ∈ jobs, job.Rejecting) {sink : Sink}
    (willing : sink.Willing) {held : List UInt8} (unpacks : unpack sink.written = some held) :
    unpack (sinkAfter sink jobs).written =
      some (held ++ (jobs.filter fun job => job.Lossless).flatMap fun job => job.feed.delivered) := by
  induction jobs generalizing sink held with
  | nil => simpa using unpacks
  | cons job rest ih =>
    have first := rejecting job (by simp)
    have later : ∀ other ∈ rest, other.Rejecting :=
      fun other member => rejecting other (by simp [member])
    rw [sinkAfter_cons]
    by_cases lossless : job.Lossless
    · obtain ⟨still, kept⟩ := first.run_of_lossless lossless willing
      have grown : unpack (job.run sink).2.written = some (held ++ job.feed.delivered) := by
        rw [kept]
        exact unpack_append unpacks (unpack_encode lossless.plain)
      rw [ih later still grown]
      simp [lossless]
    · rw [first.run_of_not_lossless lossless, ih later willing unpacks]
      simp [lossless]

/-- Whatever the sink does with the writes, it unpacks to the inputs of the jobs that could be
read and had no flagged byte. -/
theorem unpack_shared_sink (jobs : List Job) (rejecting : ∀ job ∈ jobs, job.Rejecting) (sink : Sink)
    (fresh : sink.written = []) (willing : sink.Willing) :
    unpack (sinkAfter sink jobs).written =
      some ((jobs.filter fun job => job.Lossless).flatMap fun job => job.feed.delivered) := by
  have empty : unpack sink.written = some [] := by
    rw [fresh]
    rfl
  exact unpack_sinkAfter rejecting willing empty

/-- Two jobs of one value meet in the stream, with two failed ones between them. -/
theorem unpack_shared_sink_between_failures :
    let jobs : List Job :=
      [{ policy := some "reject", feed := [.bytes [7, 7]] },
        { policy := some "Reject", feed := [.bytes [1], .fault (.plain .brokenPipe)] },
        { policy := some "REJECT", report := some "json", feed := [.bytes [2, 0x90]] },
        { policy := some "reject", feed := [.bytes [7], .fault (.system 4), .bytes [3]] }]
    let sink : Sink := {
      writes := [.upTo 1, .fault (.system 4), .upTo 5], flushes := [some (.plain .brokenPipe)] }
    (∀ job ∈ jobs, job.Rejecting) ∧ sink.written = [] ∧ sink.Willing ∧
      unpack (sinkAfter sink jobs).written = some [7, 7, 7, 3] := by
  intro jobs sink
  have rejecting : ∀ job ∈ jobs, job.Rejecting := by
    simp only [jobs, List.forall_mem_cons, List.not_mem_nil, false_implies, implies_true, and_true]
    exact ⟨⟨.text, rfl⟩, ⟨.text, rfl⟩, ⟨.json, rfl⟩, ⟨.text, rfl⟩⟩
  have willing : sink.Willing := by
    simp [Sink.Willing, sink, Acceptance.stop?, Fault.isInterrupted]
  have inputs : (jobs.filter fun job => job.Lossless).flatMap (fun job => job.feed.delivered) =
      [7, 7, 7, 3] := by decide +kernel
  have unpacked := unpack_shared_sink jobs rejecting sink rfl willing
  rw [inputs] at unpacked
  exact ⟨rejecting, rfl, willing, unpacked⟩

end TilePack
