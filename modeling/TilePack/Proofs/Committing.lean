import TilePack.Proofs.Scanning

/-! Pulling records and pushing bytes make the same stream. Wherever a scanner is
suspended, a machine that has committed the records so far goes on to the same end. -/
namespace TilePack

namespace OpenRun

/-- The run as the pushing machine counts it. -/
def active (run : OpenRun) : ActiveRun := ⟨run.value, run.count.toNat⟩

theorem commit_active (run : OpenRun) (output : List UInt8) :
    Committer.commit output run.active = output ++ run.close.wire := by
  by_cases single : run.count = 1
  · simp [Committer.commit, active, close, single, Record.wire]
  · have several : run.count.toNat ≠ 1 := fun one => single (UInt8.toNat_inj.mp one)
    simp [Committer.commit, active, close, single, several, Record.wire]

end OpenRun

namespace Committer

@[simp] theorem push_idle (output : List UInt8) (byte : UInt8) :
    push ⟨none, output⟩ byte = ⟨some (OpenRun.start byte).active, output⟩ := rfl

theorem push_of_accepts {run : OpenRun} {byte : UInt8} (accepted : run.accepts byte = true)
    (output : List UInt8) :
    push ⟨some run.active, output⟩ byte = ⟨some run.extend.active, output⟩ := by
  obtain ⟨same, room⟩ := (run.accepts_iff byte).mp accepted
  have counted := OpenRun.toNat_count_extend accepted
  have short : run.count.toNat ≠ 255 := Nat.ne_of_lt room
  simp only [push, OpenRun.active, same, ↓reduceIte, short, counted]
  rw [← same]
  rfl

theorem push_of_refuses {run : OpenRun} {byte : UInt8} (refused : run.accepts byte = false)
    (output : List UInt8) :
    push ⟨some run.active, output⟩ byte =
      ⟨some (OpenRun.start byte).active, output ++ run.close.wire⟩ := by
  rw [← run.commit_active output]
  by_cases same : byte = run.value
  · have full := OpenRun.full_of_refuses refused same.symm
    simp [push, OpenRun.active, same, full, maxRun, OpenRun.start]
  · simp [push, OpenRun.active, same, OpenRun.start]

/-- The machine that stands where a scanner is suspended. -/
def beside (scanner : Scanner) (output : List UInt8) : Committer :=
  ⟨scanner.current.map OpenRun.active, output⟩

/-- What that machine ends with, after the bytes the scanner has not read. -/
def complete (scanner : Scanner) (output : List UInt8) : List UInt8 :=
  (scanner.unread.foldl push (beside scanner output)).finish

/-- Up to the byte that closes a run, the machine counts with the scanner. At that
byte it commits what the scanner yields, and both hold the next run open. -/
theorem complete_advance (run : OpenRun) (unread : List UInt8) (output : List UInt8) :
    complete ⟨unread, some run⟩ output =
      complete (Scanner.advance run unread).2 (output ++ (Scanner.advance run unread).1.wire) := by
  induction unread generalizing run with
  | nil => exact run.commit_active output
  | cons byte rest ih =>
    cases accepted : run.accepts byte with
    | true =>
      have step := push_of_accepts accepted output
      simp only [Scanner.advance, accepted, ↓reduceIte]
      rw [← ih run.extend]
      simp [complete, beside, step]
    | false =>
      have step := push_of_refuses accepted output
      simp only [Scanner.advance, accepted, Bool.false_eq_true, ↓reduceIte]
      simp [complete, beside, step]

theorem complete_of_next?_some {scanner rest : Scanner} {record : Record}
    (found : scanner.next? = some (record, rest)) (output : List UInt8) :
    complete scanner output = complete rest (output ++ record.wire) := by
  rcases Scanner.next?_cases found with
    ⟨run, unread, rfl, advanced⟩ | ⟨byte, unread, rfl, advanced⟩
  · rw [complete_advance, advanced]
  · have opened : complete ⟨byte :: unread, none⟩ output =
        complete ⟨unread, some (.start byte)⟩ output := by
      simp [complete, beside]
    rw [opened, complete_advance, advanced]

theorem complete_of_next?_none {scanner : Scanner} (ended : scanner.next? = none)
    (output : List UInt8) : complete scanner output = output := by
  rw [Scanner.eq_of_next?_none ended]
  rfl

/-- From any suspended scanner on, pushing appends the wire forms of its records. -/
theorem complete_eq_append (scanner : Scanner) (output : List UInt8) :
    complete scanner output = output ++ scanner.toList.flatMap Record.wire := by
  cases found : scanner.next? with
  | none =>
    rw [complete_of_next?_none found, Scanner.toList_of_next?_none found]
    simp
  | some step =>
    obtain ⟨record, rest⟩ := step
    have less := Scanner.pending_next? found
    rw [complete_of_next?_some found, complete_eq_append rest, Scanner.toList_of_next?_some found]
    simp
termination_by scanner.pending

end Committer

theorem foldlM_writeTo {records : List Record} (valid : ∀ record ∈ records, record.WellFormed)
    (buffer : Array UInt8) :
    records.foldlM (fun buffer record => record.writeTo buffer) buffer =
      .ok (records.foldl Record.pushOnto buffer) := by
  induction records generalizing buffer with
  | nil => rfl
  | cons record rest ih =>
    have written := record.writeTo_eq buffer (valid record (by simp))
    rw [List.foldlM_cons, written]
    exact ih (fun other member => valid other (by simp [member])) (record.pushOnto buffer)

/-- Writing the records of a byte string one by one is never refused, and makes the
stream that one pass of the pushing machine commits. -/
theorem encode_eq_committed (data : List UInt8) :
    encode data = Committer.encode data ∧
      (records data).foldlM (fun buffer record => record.writeTo buffer) #[] =
        .ok (Committer.encode data).toArray := by
  have pulled : Committer.encode data = encode data :=
    Committer.complete_eq_append (.ofBytes data) []
  refine ⟨pulled.symm, ?_⟩
  rw [foldlM_writeTo (segments_records data).maximal.wellFormed, pulled]
  have buffer := toList_encodeOnto #[] data
  simp only [List.nil_append] at buffer
  rw [← buffer]
  rfl

end TilePack
