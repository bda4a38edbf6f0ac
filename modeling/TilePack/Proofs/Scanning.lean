import TilePack.Proofs.Segmentation

/-! What a scanner does with the bytes it still stands for: every step takes one
record off their front, so a whole run is a segmentation of them. -/
namespace TilePack

namespace OpenRun

/-- The bytes counted so far. -/
def expand (run : OpenRun) : List UInt8 := List.replicate run.count.toNat run.value

theorem accepts_iff (run : OpenRun) (byte : UInt8) :
    run.accepts byte = true ↔ run.value = byte ∧ run.count.toNat < 255 := by
  simp [accepts, UInt8.lt_iff_toNat_lt, maxRun]

@[simp] theorem value_close (run : OpenRun) : run.close.value = run.value := by
  unfold close
  split <;> rfl

@[simp] theorem span_close (run : OpenRun) : run.close.span = run.count.toNat := by
  unfold close
  split
  · rename_i single
    rw [single]
    rfl
  · rfl

@[simp] theorem expand_close (run : OpenRun) : run.close.expand = run.expand := by
  simp [Record.expand, expand]

theorem wellFormed_close {run : OpenRun} (counted : 0 < run.count.toNat) :
    run.close.WellFormed := by
  unfold close
  split
  · trivial
  · rename_i several
    have more : run.count.toNat ≠ 1 := fun single => several (UInt8.toNat_inj.mp single)
    simp only [Record.WellFormed]
    omega

/-- A run refuses its own value only when it is full. -/
theorem full_of_refuses {run : OpenRun} {byte : UInt8} (refused : run.accepts byte = false)
    (same : run.value = byte) : run.count = maxRun := by
  apply UInt8.toNat_inj.mp
  have bound := run.count.toNat_lt
  have reached : ¬ run.count.toNat < 255 := by
    intro room
    rw [(run.accepts_iff byte).mpr ⟨same, room⟩] at refused
    cases refused
  simp only [maxRun, UInt8.reduceToNat]
  omega

theorem mayLead_close {run : OpenRun} {byte : UInt8} (refused : run.accepts byte = false)
    (rest : List UInt8) : run.close.MayLead (byte :: rest) := by
  intro continues
  have same : run.value = byte := by simpa using continues.symm
  rw [value_close, close, full_of_refuses refused same]
  rfl

theorem toNat_count_extend {run : OpenRun} {byte : UInt8} (accepted : run.accepts byte = true) :
    run.extend.count.toNat = run.count.toNat + 1 := by
  obtain ⟨_, room⟩ := (run.accepts_iff byte).mp accepted
  rw [extend, UInt8.toNat_add, UInt8.toNat_one]
  omega

theorem expand_extend_append {run : OpenRun} {byte : UInt8} (accepted : run.accepts byte = true)
    (rest : List UInt8) : run.extend.expand ++ rest = run.expand ++ byte :: rest := by
  obtain ⟨same, _⟩ := (run.accepts_iff byte).mp accepted
  subst byte
  rw [expand, toNat_count_extend accepted, List.replicate_succ']
  simp [expand, extend]

end OpenRun

namespace Scanner

/-- The bytes the records to come stand for: the open run, then what is unread. -/
def remaining (scanner : Scanner) : List UInt8 :=
  match scanner.current with
  | none => scanner.unread
  | some run => run.expand ++ scanner.unread

/-- An open run has counted at least the byte that opened it. -/
def Counting (scanner : Scanner) : Prop :=
  ∀ run, scanner.current = some run → 0 < run.count.toNat

/-- What one step does: a record that takes all it can comes off the front. -/
structure Yields (before : List UInt8) (record : Record) (after : Scanner) : Prop where
  wellFormed : record.WellFormed
  covers : before = record.expand ++ after.remaining
  leads : record.MayLead after.remaining
  counting : after.Counting

theorem advance_yields (run : OpenRun) (unread : List UInt8) (counted : 0 < run.count.toNat) :
    Yields (run.expand ++ unread) (advance run unread).1 (advance run unread).2 := by
  induction unread generalizing run with
  | nil =>
    refine ⟨OpenRun.wellFormed_close counted, ?_, ?_, ?_⟩
    · simp [advance, remaining]
    · simp [advance, remaining, Record.MayLead]
    · simp [advance, Counting]
  | cons byte rest ih =>
    cases accepted : run.accepts byte with
    | true =>
      simp only [advance, accepted, ↓reduceIte]
      rw [← OpenRun.expand_extend_append accepted]
      apply ih
      rw [OpenRun.toNat_count_extend accepted]
      exact Nat.succ_pos _
    | false =>
      simp only [advance, accepted, Bool.false_eq_true, ↓reduceIte]
      refine ⟨OpenRun.wellFormed_close counted, ?_, ?_, ?_⟩
      · simp [remaining, OpenRun.start, OpenRun.expand]
      · exact OpenRun.mayLead_close accepted rest
      · intro next same
        rw [← Option.some.inj same]
        exact Nat.one_pos

/-- A step counts on with the open run, or with the run that its first byte opens. -/
theorem next?_cases {scanner rest : Scanner} {record : Record}
    (found : scanner.next? = some (record, rest)) :
    (∃ run unread, scanner = ⟨unread, some run⟩ ∧ advance run unread = (record, rest)) ∨
      ∃ byte unread, scanner = ⟨byte :: unread, none⟩ ∧
        advance (.start byte) unread = (record, rest) := by
  obtain ⟨unread, current⟩ := scanner
  cases current with
  | some run => exact .inl ⟨run, unread, rfl, Option.some.inj found⟩
  | none =>
    cases unread with
    | nil => cases found
    | cons byte unread => exact .inr ⟨byte, unread, rfl, Option.some.inj found⟩

theorem eq_of_next?_none {scanner : Scanner} (ended : scanner.next? = none) :
    scanner = ⟨[], none⟩ := by
  obtain ⟨unread, current⟩ := scanner
  cases current with
  | some run => cases ended
  | none =>
    cases unread with
    | nil => rfl
    | cons byte unread => cases ended

theorem next?_yields {scanner rest : Scanner} {record : Record} (counting : scanner.Counting)
    (found : scanner.next? = some (record, rest)) : Yields scanner.remaining record rest := by
  rcases next?_cases found with ⟨run, unread, rfl, advanced⟩ | ⟨byte, unread, rfl, advanced⟩
  · have yields := advance_yields run unread (counting run rfl)
    rwa [advanced] at yields
  · have yields := advance_yields (.start byte) unread Nat.one_pos
    rwa [advanced] at yields

theorem advance_leaves (run : OpenRun) (unread : List UInt8) :
    (advance run unread).2 = ⟨[], none⟩ ∨
      ∃ byte rest, (advance run unread).2 = ⟨rest, some (.start byte)⟩ := by
  induction unread generalizing run with
  | nil => exact .inl rfl
  | cons byte rest ih =>
    cases accepted : run.accepts byte with
    | true =>
      simp only [advance, accepted, ↓reduceIte]
      exact ih run.extend
    | false =>
      simp only [advance, accepted, Bool.false_eq_true, ↓reduceIte]
      exact .inr ⟨byte, rest, rfl⟩

/-- Whatever a step began with, it leaves nothing or one byte read ahead. -/
theorem next?_leaves {scanner rest : Scanner} {record : Record}
    (found : scanner.next? = some (record, rest)) :
    rest = ⟨[], none⟩ ∨ ∃ byte unread, rest = ⟨unread, some (.start byte)⟩ := by
  rcases next?_cases found with ⟨run, unread, rfl, advanced⟩ | ⟨byte, unread, rfl, advanced⟩
  · have leaves := advance_leaves run unread
    rwa [advanced] at leaves
  · have leaves := advance_leaves (.start byte) unread
    rwa [advanced] at leaves

theorem remaining_of_next?_none {scanner : Scanner} (ended : scanner.next? = none) :
    scanner.remaining = [] := by
  rw [eq_of_next?_none ended]
  rfl

/-- A run of the scanner cuts what it stands for, whatever run is open. -/
theorem segments_toList (scanner : Scanner) (counting : scanner.Counting) :
    Segments scanner.remaining scanner.toList := by
  cases found : scanner.next? with
  | none =>
    rw [toList_of_next?_none found]
    exact segments_nil_iff.mpr (remaining_of_next?_none found)
  | some step =>
    obtain ⟨record, rest⟩ := step
    have yields := next?_yields counting found
    have less := pending_next? found
    have later := segments_toList rest yields.counting
    rw [toList_of_next?_some found, yields.covers]
    exact later.cons yields.wellFormed yields.leads
termination_by scanner.pending

end Scanner

theorem segments_records (data : List UInt8) : Segments data (records data) := by
  have counting : (Scanner.ofBytes data).Counting := by simp [Scanner.Counting, Scanner.ofBytes]
  exact Scanner.segments_toList (.ofBytes data) counting

/-- The records of a byte string are the one list that covers it, has no short run,
and repeats a value only after a full run. -/
theorem segments_iff_eq_records (data : List UInt8) (pieces : List Record) :
    Segments data pieces ↔ pieces = records data := by
  constructor
  · intro cut
    exact cut.unique (segments_records data)
  · intro same
    rw [same]
    exact segments_records data

end TilePack
