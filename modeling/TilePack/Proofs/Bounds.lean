import Mathlib.Algebra.GroupWithZero.Nat
import TilePack.Proofs.Cursors
import TilePack.Proofs.Scanning

/-! What a scanner can tell of the records to come. It reads one byte ahead and counts it
among those pending, so between two steps the pending bytes are exactly those that no
record has covered yet. This holds in every scanner that steps and copies lead to. -/
namespace TilePack

theorem length_expandAll (records : List Record) :
    (expandAll records).length = (records.map Record.span).sum := by
  simp [expandAll, List.length_flatMap]

theorem Segments.length_bounds {data : List UInt8} {pieces : List Record}
    (cut : Segments data pieces) :
    pieces.length ≤ data.length ∧ data.length ≤ 255 * pieces.length := by
  induction pieces generalizing data with
  | nil => simp [segments_nil_iff.mp cut]
  | cons record rest ih =>
    obtain ⟨least, most⟩ := ih cut.tail
    have positive := (cut.maximal.wellFormed record (by simp)).span_pos
    have bound := record.span_le
    have total := congrArg List.length cut.covers
    rw [expandAll_cons, List.length_append, Record.length_expand] at total
    rw [List.length_cons]
    omega

namespace Scanner

/-- Between two steps an open run holds just the byte that was read ahead. -/
def Settled (scanner : Scanner) : Prop := ∀ run, scanner.current = some run → run.count = 1

theorem settled_ofBytes (data : List UInt8) : (ofBytes data).Settled := by
  intro run opened
  cases opened

/-- A step settles the scanner, however long the run was that it began with. -/
theorem settled_of_next? {scanner rest : Scanner} {record : Record}
    (found : scanner.next? = some (record, rest)) : rest.Settled := by
  intro run opened
  rcases next?_leaves found with rfl | ⟨byte, unread, rfl⟩
  · cases opened
  · cases opened
    rfl

theorem Settled.counting {scanner : Scanner} (settled : scanner.Settled) : scanner.Counting := by
  intro run opened
  rw [settled run opened]
  exact Nat.one_pos

theorem Settled.pending_eq {scanner : Scanner} (settled : scanner.Settled) :
    scanner.pending = scanner.remaining.length := by
  obtain ⟨unread, current⟩ := scanner
  cases current with
  | none => rfl
  | some run =>
    have single : run.count = 1 := settled run rfl
    simp [pending, remaining, OpenRun.expand, single]

/-- Where a scanner over `data` stands once it has yielded some records. -/
structure After (data : List UInt8) (yielded : List Record) (scanner : Scanner) : Prop where
  settled : scanner.Settled
  resumes : yielded ++ scanner.toList = records data

theorem after_ofBytes (data : List UInt8) : After data [] (ofBytes data) :=
  ⟨settled_ofBytes data, rfl⟩

namespace After

variable {data : List UInt8} {yielded : List Record} {scanner : Scanner}

theorem next {record : Record} {rest : Scanner} (stands : After data yielded scanner)
    (found : scanner.next? = some (record, rest)) : After data (yielded ++ [record]) rest := by
  refine ⟨settled_of_next? found, ?_⟩
  rw [← stands.resumes, toList_of_next?_some found, List.append_assoc, List.singleton_append]

theorem answer_next {found : Option Record} (stands : After data yielded scanner)
    (reply : (scanner.answer .next).1 = .record found) :
    After data (yielded ++ found.toList) (scanner.answer .next).2.1 := by
  cases step : scanner.next? with
  | none =>
    obtain rfl : none = found := by simpa [answer, step] using reply
    simpa [answer, step] using stands
  | some pair =>
    obtain rfl : some pair.1 = found := by simpa [answer, step] using reply
    simpa [answer, step] using stands.next step

theorem segments (stands : After data yielded scanner) :
    Segments scanner.remaining scanner.toList :=
  segments_toList scanner stands.settled.counting

/-- The data is what the records yielded so far cover, then what the scanner stands for. -/
theorem covers (stands : After data yielded scanner) :
    expandAll yielded ++ scanner.remaining = data := by
  rw [← stands.segments.covers, ← expandAll_append, stands.resumes]
  exact (segments_records data).covers

theorem sum_span_add_pending (stands : After data yielded scanner) :
    (yielded.map Record.span).sum + scanner.pending = data.length := by
  rw [← length_expandAll, stands.settled.pending_eq, ← List.length_append, stands.covers]

theorem toList_bounds (stands : After data yielded scanner) :
    scanner.toList.length ≤ scanner.pending ∧ scanner.pending ≤ 255 * scanner.toList.length := by
  rw [stands.settled.pending_eq]
  exact stands.segments.length_bounds

theorem pending_eq_zero_iff (stands : After data yielded scanner) :
    scanner.pending = 0 ↔ scanner.next? = none := by
  obtain ⟨least, most⟩ := stands.toList_bounds
  rw [next?_eq_none_iff, ← List.length_eq_zero_iff]
  omega

end After

namespace Bank

/-- The banks that one scanner over `data` leads to, when members are asked for their next
record and copied in any order. Beside the bank stands what each member has yielded; a
copy starts with what its original had yielded by then. -/
inductive Reached (data : List UInt8) : List (List Record) → Bank → Prop where
  | start : Reached data [[]] (.ofBytes data)
  | next {histories : List (List Record)} {bank after : Bank} {target : Nat}
      {found : Option Record} {bounds : Nat × Nat}
      (before : Reached data histories bank)
      (stepped : bank.step ⟨target, .next⟩ = some (⟨.record found, bounds⟩, after)) :
      Reached data (histories.modify target (· ++ found.toList)) after
  | clone {histories : List (List Record)} {bank after : Bank} {target : Nat} {report : Report}
      (before : Reached data histories bank)
      (stepped : bank.step ⟨target, .clone⟩ = some (report, after)) :
      Reached data (histories ++ histories[target]?.toList) after

/-- Every member stands where its own history has led it. -/
structure Tracks (data : List UInt8) (histories : List (List Record)) (bank : Bank) : Prop where
  length : histories.length = bank.length
  member : ∀ {index : Nat} {yielded : List Record} {scanner : Scanner},
    histories[index]? = some yielded → bank[index]? = some scanner → After data yielded scanner

namespace Tracks

variable {data : List UInt8} {histories : List (List Record)} {bank after : Bank} {target : Nat}

theorem history {index : Nat} {scanner : Scanner} (tracks : Tracks data histories bank)
    (present : bank[index]? = some scanner) :
    ∃ yielded, histories[index]? = some yielded ∧ After data yielded scanner := by
  obtain ⟨within, -⟩ := List.getElem?_eq_some_iff.mp present
  rw [← tracks.length] at within
  have found := List.getElem?_eq_getElem within
  exact ⟨histories[index], found, tracks.member found present⟩

theorem start (data : List UInt8) : Tracks data [[]] (.ofBytes data) := by
  refine ⟨rfl, ?_⟩
  intro index yielded scanner history present
  cases index with
  | zero =>
    obtain rfl : [] = yielded := Option.some.inj history
    obtain rfl : .ofBytes data = scanner := Option.some.inj present
    exact after_ofBytes data
  | succ index => cases history

theorem next {found : Option Record} {bounds : Nat × Nat} (tracks : Tracks data histories bank)
    (stepped : bank.step ⟨target, .next⟩ = some (⟨.record found, bounds⟩, after)) :
    Tracks data (histories.modify target (· ++ found.toList)) after := by
  obtain ⟨scanner, asked, told, left⟩ := step_eq_some_iff.mp stepped
  rw [copies_answer] at left
  have moved : after = bank.set target (scanner.answer .next).2.1 := by
    simpa [Query.copies] using left
  subst moved
  refine ⟨by simpa using tracks.length, ?_⟩
  intro index yielded other history present
  rw [List.getElem?_modify] at history
  by_cases same : target = index
  · subst index
    obtain ⟨earlier, recorded, rfl⟩ : ∃ earlier, histories[target]? = some earlier ∧
        earlier ++ found.toList = yielded := by simpa using history
    obtain ⟨-, rfl⟩ : target < bank.length ∧ (scanner.answer .next).2.1 = other := by
      simpa [List.getElem?_set] using present
    exact (tracks.member recorded asked).answer_next (congrArg Report.reply told).symm
  · rw [List.getElem?_set_ne same] at present
    exact tracks.member (by simpa [same] using history) present

theorem clone {report : Report} (tracks : Tracks data histories bank)
    (stepped : bank.step ⟨target, .clone⟩ = some (report, after)) :
    Tracks data (histories ++ histories[target]?.toList) after := by
  obtain ⟨scanner, asked, -, left⟩ := step_eq_some_iff.mp stepped
  obtain ⟨copied, recorded, stands⟩ := tracks.history asked
  have kept : bank.set target scanner = bank := by
    obtain ⟨within, rfl⟩ := List.getElem?_eq_some_iff.mp asked
    exact List.set_getElem_self within
  have grown : after = bank ++ [scanner] := by
    rw [left, copies_answer]
    simp [answer, Query.copies, kept]
  subst grown
  rw [recorded, Option.toList_some]
  refine ⟨by simpa using tracks.length, ?_⟩
  intro index yielded other history present
  rcases Nat.lt_or_ge index bank.length with within | beyond
  · rw [List.getElem?_append_left (tracks.length ▸ within)] at history
    rw [List.getElem?_append_left within] at present
    exact tracks.member history present
  · rw [List.getElem?_append_right (tracks.length ▸ beyond)] at history
    rw [List.getElem?_append_right beyond] at present
    rw [List.mem_singleton.mp (List.mem_of_getElem? history),
      List.mem_singleton.mp (List.mem_of_getElem? present)]
    exact stands

end Tracks

theorem Reached.tracks {data : List UInt8} {histories : List (List Record)} {bank : Bank}
    (reached : Reached data histories bank) : Tracks data histories bank := by
  induction reached with
  | start => exact Tracks.start data
  | next before stepped ih => exact ih.next stepped
  | clone before stepped ih => exact ih.clone stepped

end Bank

/-- A scanner's bounds are exact about the bytes left and sound about the records to come,
after any steps and copies. -/
theorem bounds_of_reached {data : List UInt8} {histories : List (List Record)} {bank : Bank}
    (reached : Bank.Reached data histories bank) (index : Nat) (scanner : Scanner)
    (member : bank[index]? = some scanner) :
    ∃ yielded, histories[index]? = some yielded ∧ yielded ++ scanner.toList = records data ∧
      (yielded.map Record.span).sum ≤ data.length ∧
      let left := data.length - (yielded.map Record.span).sum
      scanner.bounds = (min left 1, left) ∧
        min left 1 ≤ scanner.toList.length ∧ scanner.toList.length ≤ left ∧
        left ≤ 255 * scanner.toList.length ∧
        (left = 0 ↔ scanner.next? = none) := by
  obtain ⟨yielded, recorded, stands⟩ := reached.tracks.history member
  have total := stands.sum_span_add_pending
  obtain ⟨most, least⟩ := stands.toList_bounds
  have left : data.length - (yielded.map Record.span).sum = scanner.pending := by omega
  refine ⟨yielded, recorded, stands.resumes, by omega, ?_⟩
  rw [left]
  exact ⟨rfl, by omega, most, least, stands.pending_eq_zero_iff⟩

/-- A full run leaves the last of its equal bytes read ahead. -/
theorem bounds_of_reached_past_full_run :
    let data : List UInt8 := List.replicate 256 7
    let waiting : Scanner := ⟨[], some ⟨7, 1⟩⟩
    let ended : Scanner := ⟨[], none⟩
    Bank.Reached data [[.run 7 255], [.run 7 255, .literal 7]] [waiting, ended] ∧
      (waiting.bounds = (1, 1) ∧ waiting.next? ≠ none) ∧
      ended.bounds = (0, 0) ∧ ended.next? = none := by
  intro data waiting ended
  have asked : (Bank.ofBytes data).step ⟨0, .next⟩ =
      some (⟨.record (some (.run 7 255)), (1, 1)⟩, [waiting]) := by decide +kernel
  have copied : Bank.step [waiting] ⟨0, .clone⟩ =
      some (⟨.silent, (1, 1)⟩, [waiting, waiting]) := rfl
  have finished : Bank.step [waiting, waiting] ⟨1, .next⟩ =
      some (⟨.record (some (.literal 7)), (0, 0)⟩, [waiting, ended]) := rfl
  have reached : Bank.Reached data [[.run 7 255], [.run 7 255, .literal 7]] [waiting, ended] :=
    ((Bank.Reached.start.next asked).clone copied).next finished
  have one : data.length - ([.run 7 255].map Record.span).sum = 1 := by decide +kernel
  have nothing : data.length - ([.run 7 255, .literal 7].map Record.span).sum = 0 := by
    decide +kernel
  obtain ⟨_, recorded, -, -, first, -, -, -, goes⟩ := bounds_of_reached reached 0 waiting rfl
  obtain ⟨_, continued, -, -, second, -, -, -, stops⟩ := bounds_of_reached reached 1 ended rfl
  obtain rfl := Option.some.inj recorded
  obtain rfl := Option.some.inj continued
  rw [one] at first goes
  rw [nothing] at second stops
  exact ⟨reached, ⟨first, fun ending => absurd (goes.mpr ending) Nat.one_ne_zero⟩, second,
    stops.mp rfl⟩

end Scanner

end TilePack
