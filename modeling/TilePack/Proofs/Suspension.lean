import TilePack.Proofs.Bounds

/-! A scanner put aside in the middle of its work. With a run of any length open it goes on
as a scanner would that starts at the first byte of that run, and between two calls the
only byte it holds open is the one that closed the record before. -/
namespace TilePack.Scanner

/-- The scanner after so many calls for the next record. -/
def afterCalls (scanner : Scanner) : Nat → Scanner
  | 0 => scanner
  | calls + 1 => ((scanner.afterCalls calls).answer .next).2.1

theorem toList_eq_records {scanner : Scanner} (counting : scanner.Counting) :
    scanner.toList = records scanner.remaining :=
  (segments_toList scanner counting).unique (segments_records scanner.remaining)

theorem snd_drain (scanner : Scanner) : scanner.drain.2 = ⟨[], none⟩ :=
  eq_of_next?_none (next?_eq_none_iff.mpr (toList_snd_drain scanner))

theorem drain_open {count : UInt8} (counted : 1 ≤ count) (value : UInt8) (unread : List UInt8) :
    drain ⟨unread, some ⟨value, count⟩⟩ =
      (records (List.replicate count.toNat value ++ unread), ⟨[], none⟩) := by
  have counting : Counting ⟨unread, some ⟨value, count⟩⟩ := by
    intro run opened
    rw [← Option.some.inj opened]
    exact UInt8.le_iff_toNat_le.mp counted
  exact Prod.ext (toList_eq_records counting) (snd_drain _)

theorem reply_next (scanner : Scanner) :
    (scanner.answer .next).1 = .record scanner.toList.head? := by
  cases found : scanner.next? with
  | none => simp [answer, found, toList_of_next?_none found]
  | some step => simp [answer, found, toList_of_next?_some found]

/-- Where a scanner stands after so many calls. Those past its end yield nothing more. -/
theorem after_afterCalls (data : List UInt8) (calls : Nat) :
    After data ((records data).take calls) ((ofBytes data).afterCalls calls) := by
  induction calls with
  | zero => exact after_ofBytes data
  | succ calls ih =>
    have ahead : ((ofBytes data).afterCalls calls).toList = (records data).drop calls := by
      apply List.append_cancel_left
      rw [ih.resumes, List.take_append_drop]
    rw [afterCalls, List.take_add_one]
    apply ih.answer_next
    rw [reply_next, ahead, List.head?_drop]

theorem afterCalls_succ_leaves (scanner : Scanner) (calls : Nat) :
    scanner.afterCalls (calls + 1) = ⟨[], none⟩ ∨
      ∃ byte unread, scanner.afterCalls (calls + 1) = ⟨unread, some (.start byte)⟩ := by
  rw [afterCalls, answer]
  cases found : (scanner.afterCalls calls).next? with
  | none => exact .inl (eq_of_next?_none found)
  | some step => exact next?_leaves found

/-- The byte read ahead is the first that the records yielded so far do not cover. -/
theorem After.read_ahead {data unread : List UInt8} {yielded : List Record} {byte : UInt8}
    (stands : After data yielded ⟨unread, some (.start byte)⟩) :
    data[(yielded.map Record.span).sum]? = some byte ∧
      unread = data.drop ((yielded.map Record.span).sum + 1) := by
  have covers : expandAll yielded ++ byte :: unread = data := stands.covers
  rw [← length_expandAll, ← covers]
  constructor
  · simp
  · rw [← List.drop_drop, List.drop_left]
    rfl

/-- Draining a suspended scanner gives the records of its open run and the unread bytes, and a
call reads one byte ahead at most. -/
theorem drain_open_and_read_ahead :
    (∀ (value count : UInt8) (unread : List UInt8), 1 ≤ count →
      drain ⟨unread, some ⟨value, count⟩⟩ =
        (records (List.replicate count.toNat value ++ unread), ⟨[], none⟩)) ∧
    ∀ (data : List UInt8) (calls : Nat), 1 ≤ calls →
      let scanner := (ofBytes data).afterCalls calls
      let covered := (((records data).take calls).map Record.span).sum
      (∀ run, scanner.current = some run →
        run.count = 1 ∧ data[covered]? = some run.value ∧
          scanner.unread = data.drop (covered + 1)) ∧
      (scanner.current = none → scanner.unread = []) := by
  refine ⟨fun value count unread counted => drain_open counted value unread, ?_⟩
  intro data calls called scanner covered
  have stands : After data ((records data).take calls) scanner := after_afterCalls data calls
  obtain ⟨before, rfl⟩ := Nat.exists_eq_add_of_le' called
  rcases afterCalls_succ_leaves (ofBytes data) before with ended | ⟨byte, unread, waits⟩
  · have finished : scanner = ⟨[], none⟩ := ended
    simp [finished]
  · have waiting : scanner = ⟨unread, some (.start byte)⟩ := waits
    rw [waiting] at stands ⊢
    obtain ⟨found, rest⟩ := stands.read_ahead
    refine ⟨?_, fun closed => nomatch closed⟩
    intro run opened
    obtain rfl : .start byte = run := Option.some.inj opened
    exact ⟨rfl, found, rest⟩

theorem drain_open_and_read_ahead_at_full_run :
    let data : List UInt8 := List.replicate 254 7 ++ [7, 7, 9]
    let scanner := (ofBytes data).afterCalls 1
    drain ⟨[7, 7, 9], some ⟨7, 254⟩⟩ = (records data, ⟨[], none⟩) ∧
      scanner.current = some ⟨7, 1⟩ ∧ data[255]? = some 7 ∧ scanner.unread = data.drop 256 := by
  intro data scanner
  have opened : scanner.current = some ⟨7, 1⟩ := by decide +kernel
  have covered : (((records data).take 1).map Record.span).sum = 255 := by decide +kernel
  obtain ⟨drains, reads⟩ := drain_open_and_read_ahead
  obtain ⟨-, found, rest⟩ := (reads data 1 (Nat.le_refl 1)).1 _ opened
  rw [covered] at found rest
  exact ⟨drains 7 254 [7, 7, 9] (by decide), opened, found, rest⟩

end TilePack.Scanner
