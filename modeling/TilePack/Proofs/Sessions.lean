import TilePack.Proofs.WireFormat

/-! A buffer that only packed data and single records are appended to. Whatever their
order, and whichever records are refused, it unpacks after every step to what the steps
so far stand for. -/
namespace TilePack

namespace Session

/-- The step appends to the buffer, and only values below 128. -/
def Step.Plain : Step → Prop
  | .encodeOnto data => ∀ byte ∈ data, byte < 0x80
  | .write record => record.value < 0x80
  | _ => False

/-- What an appending step adds to the unpacked buffer. A run of fewer than two adds
nothing. -/
def Step.gain : Step → List UInt8
  | .encodeOnto data => data
  | .write (.literal value) => [value]
  | .write (.run value count) => if count < 2 then [] else List.replicate count.toNat value
  | _ => []

variable {buffer : Array UInt8} {next : Step} {record : Record} {cause : ShortRun}
  {held : List UInt8}

theorem step_write (buffer : Array UInt8) (record : Record) :
    step buffer (.write record) =
      match record.writeTo buffer with
      | .ok grown => (.written, grown)
      | .error cause => (.refused cause, buffer) := by
  rw [step, Record.run_emit]
  cases record.writeTo buffer <;> rfl

theorem step_refused_iff :
    (step buffer next).1 = .refused cause ↔
      ∃ value, next = .write (.run value cause.count) ∧ cause.count < 2 := by
  cases next with
  | write record =>
    simp only [Step.write.injEq, ← Record.writeTo_eq_error_iff buffer, step_write]
    cases record.writeTo buffer <;> simp
  | _ => simp [step]

theorem step_of_refused (refused : (step buffer next).1 = .refused cause) :
    (step buffer next).2 = buffer := by
  obtain ⟨value, rfl, short⟩ := step_refused_iff.mp refused
  rw [step_write, (Record.writeTo_eq_error_iff buffer).mpr ⟨value, rfl, short⟩]

/-- A record with a wire form adds the bytes it stands for, also one that packing would
have joined to the record before it. -/
theorem unpack_step_write (valid : record.WellFormed) (plain : record.flagged = false)
    (unpacks : unpack buffer.toList = some held) :
    unpack (step buffer (.write record)).2.toList = some (held ++ record.expand) := by
  rw [step_write, record.writeTo_eq buffer valid, Record.toList_pushOnto]
  exact unpack_append unpacks (unpack_wire plain)

/-- What the buffer unpacks to grows by the gain of each step. -/
theorem unpack_step (plain : next.Plain) (unpacks : unpack buffer.toList = some held) :
    unpack (step buffer next).2.toList = some (held ++ next.gain) := by
  cases next with
  | encodeOnto data =>
    rw [step, toList_encodeOnto]
    exact unpack_append unpacks (unpack_encode (plain_iff_lt.mpr plain))
  | write record =>
    have low : record.flagged = false := (isFlagged_eq_false_iff_lt record.value).mpr plain
    cases record with
    | literal value => exact unpack_step_write trivial low unpacks
    | run value count =>
      by_cases short : count < 2
      · have refused : (step buffer (.write (.run value count))).1 = .refused ⟨count⟩ :=
          step_refused_iff.mpr ⟨value, rfl, short⟩
        rw [step_of_refused refused, unpacks]
        simp [Step.gain, short]
      · have valid : (Record.run value count).WellFormed :=
          Nat.le_of_not_lt fun few => short (UInt8.lt_iff_toNat_lt.mpr few)
        rw [unpack_step_write valid low unpacks]
        simp [Step.gain, short, Record.expand, Record.span, Record.value]
  | _ => exact plain.elim

theorem unpack_finish {steps : List Step} (plain : ∀ step ∈ steps, step.Plain)
    (unpacks : unpack buffer.toList = some held) :
    unpack (finish buffer steps).toList = some (held ++ steps.flatMap Step.gain) := by
  induction steps generalizing buffer held with
  | nil => simpa [finish] using unpacks
  | cons next rest ih =>
    have grown := unpack_step (plain next (by simp)) unpacks
    have later := ih (fun other member => plain other (by simp [member])) grown
    rw [List.flatMap_cons, ← List.append_assoc]
    exact later

/-- The trace of a session holds every step as it is taken on the buffer left so far. -/
theorem getElem?_run_append (buffer : Array UInt8) (done : List Step) (next : Step)
    (later : List Step) :
    (run buffer (done ++ next :: later))[done.length]? = some (step (finish buffer done) next) := by
  induction done generalizing buffer with
  | nil => rfl
  | cons first rest ih => exact ih (step buffer first).2

/-- At any step of a session of plain appending steps, only short runs are refused, and the
buffer unpacks to what was added. -/
theorem unpack_session (done : List Step) (next : Step) (later : List Step)
    (plain : ∀ step ∈ done ++ next :: later, step.Plain) :
    ∃ reply after, (run #[] (done ++ next :: later))[done.length]? = some (reply, after) ∧
      (∀ cause, reply = .refused cause ↔
        ∃ value, next = .write (.run value cause.count) ∧ cause.count < 2) ∧
      (∀ cause, reply = .refused cause → after = finish #[] done) ∧
      unpack (finish #[] done).toList = some (done.flatMap Step.gain) ∧
      unpack after.toList = some (done.flatMap Step.gain ++ next.gain) := by
  have start : unpack (#[] : Array UInt8).toList = some [] := rfl
  have before : unpack (finish #[] done).toList = some (done.flatMap Step.gain) :=
    unpack_finish (fun step member => plain step (by simp [member])) start
  refine ⟨_, _, getElem?_run_append #[] done next later, ?_, ?_, before, ?_⟩
  · exact fun cause => step_refused_iff
  · exact fun cause => step_of_refused
  · exact unpack_step (plain next (by simp)) before

theorem unpack_session_refusal :
    let done : List Step := [.encodeOnto [7, 7, 7], .write (.run 7 2)]
    let next : Step := .write (.run 9 1)
    let later : List Step := [.write (.literal 7), .write (.run 5 0)]
    (∀ step ∈ done ++ next :: later, step.Plain) ∧
      ∃ after, (run #[] (done ++ next :: later))[2]? = some (.refused ⟨1⟩, after) ∧
        after = finish #[] done ∧ unpack after.toList = some [7, 7, 7, 7, 7] := by
  intro done next later
  have plain : ∀ step ∈ done ++ next :: later, step.Plain := by
    simp [done, next, later, Step.Plain, Record.value]
  obtain ⟨reply, after, traced, refuses, unchanged, -, unpacks⟩ :=
    unpack_session done next later plain
  have refused : reply = .refused ⟨1⟩ := (refuses ⟨1⟩).mpr ⟨9, rfl, by decide⟩
  rw [refused] at traced
  exact ⟨plain, after, traced, unchanged ⟨1⟩ refused, unpacks⟩

end Session

end TilePack
