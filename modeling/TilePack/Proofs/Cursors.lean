import TilePack.Scanner.Bank

/-! A bank of scanners answers like a bank of cursors. A scanner stands for the place
it has reached in the list of all records, and every query keeps the two in step,
whatever was consumed, exhausted or copied before. -/
namespace TilePack.Scanner

theorem next?_eq_none_iff {scanner : Scanner} : scanner.next? = none ↔ scanner.toList = [] := by
  constructor
  · exact toList_of_next?_none
  · intro ended
    cases found : scanner.next? with
    | none => rfl
    | some step =>
      rw [toList_of_next?_some found] at ended
      cases ended

theorem take_toList (limit : Nat) (scanner : Scanner) :
    (scanner.take limit).1 = scanner.toList.take limit ∧
      (scanner.take limit).2.toList = scanner.toList.drop limit := by
  induction limit generalizing scanner with
  | zero => exact ⟨rfl, rfl⟩
  | succ limit ih =>
    rw [take_succ]
    cases found : scanner.next? with
    | none => simp [toList_of_next?_none found]
    | some step => simp [toList_of_next?_some found, ih]

theorem nth?_toList (skip : Nat) (scanner : Scanner) :
    (scanner.nth? skip).1 = scanner.toList[skip]? ∧
      (scanner.nth? skip).2.toList = scanner.toList.drop (skip + 1) := by
  induction skip generalizing scanner with
  | zero =>
    unfold nth?
    cases found : scanner.next? with
    | none => simp [toList_of_next?_none found]
    | some step => simp [toList_of_next?_some found]
  | succ skip ih =>
    unfold nth?
    cases found : scanner.next? with
    | none => simp [toList_of_next?_none found]
    | some step => simp [toList_of_next?_some found, ih]

theorem toList_snd_drain (scanner : Scanner) : scanner.drain.2.toList = [] := by
  obtain ⟨taken, left⟩ := take_toList scanner.pending scanner
  have whole : scanner.toList.take scanner.pending = scanner.toList := taken.symm
  have split := List.take_append_drop scanner.pending scanner.toList
  rw [whole] at split
  rw [drain, left]
  exact List.append_right_eq_self.mp split

/-- How many of the records ahead a query uses up. -/
def Query.uses (ahead : List Record) : Query → Nat
  | .next => 1
  | .nth skip => skip + 1
  | .take limit => limit
  | .count | .wireSize => ahead.length
  | .clone | .describe => 0

/-- Whatever is asked, the records ahead afterwards are a rest of those before. -/
theorem toList_answer (scanner : Scanner) (query : Query) :
    (scanner.answer query).2.1.toList = scanner.toList.drop (query.uses scanner.toList) := by
  cases query with
  | next =>
    simp only [answer, Query.uses]
    cases found : scanner.next? with
    | none => simp [toList_of_next?_none found]
    | some step => simp [toList_of_next?_some found]
  | nth skip => exact (nth?_toList skip scanner).2
  | take limit => exact (take_toList limit scanner).2
  | count => simp [answer, Query.uses, toList_snd_drain]
  | wireSize => simp [answer, Query.uses, toList_snd_drain]
  | clone => rfl
  | describe => rfl

theorem toList_of_answer_next {scanner : Scanner}
    (nothing : (scanner.answer .next).1 = .record none) : scanner.toList = [] := by
  cases found : scanner.next? with
  | none => exact toList_of_next?_none found
  | some step => simp [answer, found] at nothing

/-- How many members a query adds to a bank. -/
def Query.copies : Query → Nat
  | .clone => 1
  | .next | .nth _ | .take _ | .count | .wireSize | .describe => 0

theorem copies_answer (scanner : Scanner) (query : Query) :
    (scanner.answer query).2.2 = List.replicate query.copies scanner := by
  cases query with
  | next =>
    simp only [answer]
    cases scanner.next? <;> rfl
  | nth skip => rfl
  | take limit => rfl
  | count => rfl
  | wireSize => rfl
  | clone => rfl
  | describe => rfl

/-- The place of a scanner: what is not ahead of it lies behind. -/
def place (all : List Record) (scanner : Scanner) : Cursor := all.length - scanner.toList.length

section Place

variable {all : List Record} {scanner : Scanner}

theorem toList_eq_drop_place (reads : scanner.toList <:+ all) :
    scanner.toList = all.drop (scanner.place all) :=
  List.suffix_iff_eq_drop.mp reads

theorem place_eq_skip {before after : Scanner} {amount : Nat} (reads : before.toList <:+ all)
    (used : after.toList = before.toList.drop amount) :
    after.place all = Cursor.skip all (before.place all) amount := by
  have shorter := reads.length_le
  change all.length - after.toList.length =
    min (all.length - before.toList.length + amount) all.length
  rw [used, List.length_drop]
  omega

theorem skip_place_length (reads : scanner.toList <:+ all) :
    Cursor.skip all (scanner.place all) scanner.toList.length = all.length := by
  have used : scanner.drain.2.toList = scanner.toList.drop scanner.toList.length := by
    simp [toList_snd_drain]
  rw [← place_eq_skip reads used, place, toList_snd_drain]
  rfl

/-- One query on a scanner is the same query at its place. -/
theorem cursor_answer_place (reads : scanner.toList <:+ all) {query : Query}
    (asked : query ≠ .describe) :
    Cursor.answer all (scanner.place all) query =
      some ((scanner.answer query).1, (scanner.answer query).2.1.place all,
        (scanner.answer query).2.2.map (place all)) := by
  have ahead := toList_eq_drop_place reads
  rw [place_eq_skip reads (toList_answer scanner query)]
  cases query with
  | next =>
    have first : all[scanner.place all]? = scanner.toList.head? := by
      rw [ahead, List.head?_drop]
    simp only [Cursor.answer, answer, Query.uses, first]
    cases found : scanner.next? with
    | none => simp [toList_of_next?_none found]
    | some step => simp [toList_of_next?_some found]
  | nth skip =>
    have found : all[scanner.place all + skip]? = scanner.toList[skip]? := by
      rw [ahead, List.getElem?_drop]
    simp [Cursor.answer, answer, Query.uses, found, nth?_toList]
  | take limit => simp [Cursor.answer, answer, Query.uses, ← ahead, take_toList]
  | count =>
    have left : all.length - scanner.place all = scanner.drain.1.length :=
      Nat.sub_sub_self reads.length_le
    simp [Cursor.answer, answer, Query.uses, left, skip_place_length reads]
  | wireSize =>
    have left : all.drop (scanner.place all) = scanner.drain.1 := ahead.symm
    simp [Cursor.answer, answer, Query.uses, left, skip_place_length reads]
  | clone =>
    have stays : scanner.toList = scanner.toList.drop 0 := rfl
    simp [Cursor.answer, answer, Query.uses, ← place_eq_skip reads stays]
  | describe => exact absurd rfl asked

end Place

namespace Bank

variable {all : List Record} {bank after : Bank} {step : Step} {report : Report}

theorem step_eq_some_iff :
    bank.step step = some (report, after) ↔
      ∃ scanner, bank[step.target]? = some scanner ∧
        report = ⟨(scanner.answer step.query).1, (scanner.answer step.query).2.1.bounds⟩ ∧
        after = bank.set step.target (scanner.answer step.query).2.1 ++
          (scanner.answer step.query).2.2 := by
  simp only [Bank.step, Option.bind_eq_bind, Option.bind_eq_some_iff, Option.some.injEq,
    Prod.mk.injEq]
  constructor
  · rintro ⟨scanner, member, same, left⟩
    exact ⟨scanner, member, same.symm, left.symm⟩
  · rintro ⟨scanner, member, same, left⟩
    exact ⟨scanner, member, same.symm, left.symm⟩

theorem run_cons_eq_some_iff {first : Step} {rest : List Step} {reports : List Report} :
    bank.run (first :: rest) = some reports ↔
      ∃ report after later, bank.step first = some (report, after) ∧
        after.run rest = some later ∧ reports = report :: later := by
  simp only [Bank.run, Option.bind_eq_bind, Option.bind_eq_some_iff, Option.some.injEq]
  constructor
  · rintro ⟨⟨report, after⟩, stepped, later, ran, same⟩
    exact ⟨report, after, later, stepped, ran, same.symm⟩
  · rintro ⟨report, after, later, stepped, ran, same⟩
    exact ⟨⟨report, after⟩, stepped, later, ran, same.symm⟩

/-- Every member has some end of the records ahead of it. -/
def Reads (all : List Record) (bank : Bank) : Prop := ∀ scanner ∈ bank, scanner.toList <:+ all

theorem reads_ofBytes (data : List UInt8) : (Bank.ofBytes data).Reads (records data) := by
  intro scanner member
  rw [List.mem_singleton.mp member]
  exact List.suffix_rfl

theorem Reads.of_step (reads : bank.Reads all)
    (stepped : bank.step step = some (report, after)) : after.Reads all := by
  obtain ⟨scanner, member, -, left⟩ := step_eq_some_iff.mp stepped
  have before := reads scanner (List.mem_of_getElem? member)
  intro other present
  rw [left] at present
  rcases List.mem_append.mp present with kept | copied
  · rcases List.mem_or_eq_of_mem_set kept with old | moved
    · exact reads other old
    · rw [moved, toList_answer]
      exact (List.drop_suffix _ _).trans before
  · rw [copies_answer] at copied
    rw [List.eq_of_mem_replicate copied]
    exact before

theorem cursor_step_place (reads : bank.Reads all) (asked : step.query ≠ .describe)
    (stepped : bank.step step = some (report, after)) :
    Cursor.step all (bank.map (place all)) step = some (report.reply, after.map (place all)) := by
  obtain ⟨scanner, member, told, left⟩ := step_eq_some_iff.mp stepped
  have answered := cursor_answer_place (reads scanner (List.mem_of_getElem? member)) asked
  simp [Cursor.step, member, answered, told, left, List.map_set]

theorem length_step (stepped : bank.step step = some (report, after)) :
    after.length = bank.length + step.query.copies := by
  obtain ⟨scanner, -, -, left⟩ := step_eq_some_iff.mp stepped
  simp [left, copies_answer]

end Bank

/-- Steps that each address a member of a bank of so many, counting the copies made by
then. Records alone cannot describe a scanner's state, so none asks for that. -/
def Addressed : Nat → List Step → Prop
  | _, [] => True
  | size, step :: rest =>
    step.target < size ∧ step.query ≠ .describe ∧ Addressed (size + step.query.copies) rest

/-- What one scanner replies when it is asked on its own. -/
def replies : Scanner → List Query → List Reply
  | _, [] => []
  | scanner, query :: rest => (scanner.answer query).1 :: replies (scanner.answer query).2.1 rest

/-- The queries that steps put to one member. -/
def queriesAt (target : Nat) (steps : List Step) : List Query :=
  (steps.filter (·.target == target)).map Step.query

/-- The replies that one member gave to its queries. -/
def repliesAt (target : Nat) (steps : List Step) (reports : List Report) : List Reply :=
  ((steps.zip reports).filter (·.1.target == target)).map (·.2.reply)

namespace Bank

variable {all : List Record} {bank after : Bank} {step : Step} {report : Report}
variable {scanner : Scanner} {target : Nat} {steps : List Step} {reports : List Report}

/-- A whole run on a bank is answered, and as its members' places answer it. -/
theorem run_eq_cursor_run (reads : bank.Reads all) (addressed : Addressed bank.length steps) :
    ∃ reports, bank.run steps = some reports ∧
      Cursor.run all (bank.map (place all)) steps = some (reports.map Report.reply) := by
  induction steps generalizing bank with
  | nil => exact ⟨[], rfl, rfl⟩
  | cons first rest ih =>
    obtain ⟨within, asked, later⟩ := addressed
    obtain ⟨report, after, stepped⟩ : ∃ report after, bank.step first = some (report, after) :=
      ⟨_, _, step_eq_some_iff.mpr ⟨bank[first.target], List.getElem?_eq_getElem within, rfl, rfl⟩⟩
    rw [← length_step stepped] at later
    obtain ⟨reports, ran, told⟩ := ih (reads.of_step stepped) later
    refine ⟨report :: reports, ?_, ?_⟩
    · exact run_cons_eq_some_iff.mpr ⟨report, after, reports, stepped, ran, rfl⟩
    · simp [Cursor.run, cursor_step_place reads asked stepped, told]

theorem step_at (stepped : bank.step step = some (report, after))
    (member : bank[step.target]? = some scanner) :
    report.reply = (scanner.answer step.query).1 ∧
      after[step.target]? = some (scanner.answer step.query).2.1 := by
  obtain ⟨found, same, told, left⟩ := step_eq_some_iff.mp stepped
  obtain rfl : found = scanner := Option.some.inj (same.symm.trans member)
  obtain ⟨within, -⟩ := List.getElem?_eq_some_iff.mp member
  refine ⟨by rw [told], ?_⟩
  rw [left, List.getElem?_append_left (by simpa using within)]
  simp [within]

theorem step_elsewhere (stepped : bank.step step = some (report, after))
    (member : bank[target]? = some scanner) (other : step.target ≠ target) :
    after[target]? = some scanner := by
  obtain ⟨found, -, -, left⟩ := step_eq_some_iff.mp stepped
  obtain ⟨within, -⟩ := List.getElem?_eq_some_iff.mp member
  rw [left, List.getElem?_append_left (by simpa using within), List.getElem?_set_ne other, member]

/-- In any run a member replies as it would alone. -/
theorem repliesAt_run (member : bank[target]? = some scanner)
    (ran : bank.run steps = some reports) :
    repliesAt target steps reports = scanner.replies (queriesAt target steps) := by
  induction steps generalizing bank scanner reports with
  | nil => rfl
  | cons first rest ih =>
    obtain ⟨report, after, later, stepped, followed, same⟩ := run_cons_eq_some_iff.mp ran
    subst reports
    by_cases addressed : first.target = target
    · subst target
      obtain ⟨told, moved⟩ := step_at stepped member
      have rest := ih moved followed
      simp only [repliesAt, queriesAt] at rest
      simp [repliesAt, queriesAt, replies, told, rest]
    · have rest := ih (step_elsewhere stepped member addressed) followed
      simp only [repliesAt, queriesAt] at rest
      simp [repliesAt, queriesAt, addressed, rest]

/-- A member that has ended replies to `next` with nothing, whatever else is asked of it
or of others in between. -/
theorem ended_run (member : bank[target]? = some scanner) (ended : scanner.toList = [])
    (ran : bank.run steps = some reports) :
    ∀ pair ∈ steps.zip reports, pair.1 = ⟨target, .next⟩ → pair.2.reply = .record none := by
  induction steps generalizing bank scanner reports with
  | nil => simp
  | cons first rest ih =>
    obtain ⟨report, after, later, stepped, followed, same⟩ := run_cons_eq_some_iff.mp ran
    subst reports
    rw [List.zip_cons_cons, List.forall_mem_cons]
    constructor
    · intro asked
      change first = ⟨target, .next⟩ at asked
      subst first
      rw [(step_at stepped member).1, answer, next?_eq_none_iff.mpr ended]
    · by_cases addressed : first.target = target
      · subst target
        have still : (scanner.answer first.query).2.1.toList = [] := by
          rw [toList_answer, ended, List.drop_nil]
        exact ih (step_at stepped member).2 still followed
      · exact ih (step_elsewhere stepped member addressed) ended followed

end Bank

/-- Scanners over a byte string answer as cursors into its records do, in every run that
addresses them. -/
theorem bank_refines_cursors :
    (∀ (data : List UInt8) (steps : List Step), Addressed 1 steps →
      ∃ reports, (Bank.ofBytes data).run steps = some reports ∧
        Cursor.run (records data) [0] steps = some (reports.map Report.reply)) ∧
    (∀ (bank : Bank) (target : Nat) (later : List Step) (report : Report) (reports : List Report),
      bank.run (⟨target, .clone⟩ :: later) = some (report :: reports) →
        ∃ scanner, bank[target]? = some scanner ∧
          repliesAt target later reports = scanner.replies (queriesAt target later) ∧
          repliesAt bank.length later reports = scanner.replies (queriesAt bank.length later)) ∧
    (∀ (bank : Bank) (target : Nat) (later : List Step) (report : Report) (reports : List Report),
      bank.run (⟨target, .next⟩ :: later) = some (report :: reports) →
        report.reply = .record none →
          ∀ pair ∈ later.zip reports, pair.1 = ⟨target, .next⟩ → pair.2.reply = .record none) := by
  refine ⟨?_, ?_, ?_⟩
  · intro data steps addressed
    have reads := Bank.reads_ofBytes data
    have start : (Bank.ofBytes data).map (place (records data)) = [0] := by
      simp [Bank.ofBytes, place, records]
    rw [← start]
    exact Bank.run_eq_cursor_run reads addressed
  · intro bank target later report reports ran
    obtain ⟨_, after, _, stepped, followed, same⟩ := Bank.run_cons_eq_some_iff.mp ran
    obtain ⟨-, rfl⟩ := List.cons.inj same
    obtain ⟨scanner, member, -, left⟩ := Bank.step_eq_some_iff.mp stepped
    have original := (Bank.step_at stepped member).2
    have copied : after[bank.length]? = some scanner := by
      simp [left, copies_answer, Query.copies]
    exact ⟨scanner, member, Bank.repliesAt_run original followed,
      Bank.repliesAt_run copied followed⟩
  · intro bank target later report reports ran nothing
    obtain ⟨_, after, _, stepped, -, same⟩ := Bank.run_cons_eq_some_iff.mp ran
    obtain ⟨rfl, -⟩ := List.cons.inj same
    obtain ⟨scanner, member, -, -⟩ := Bank.step_eq_some_iff.mp stepped
    have told := (Bank.step_at stepped member).1
    have ended := toList_of_answer_next (told.symm.trans nothing)
    intro pair present
    exact Bank.ended_run member ended ran pair (List.mem_cons_of_mem _ present)

theorem bank_refines_cursors_past_end :
    Addressed 1 [⟨0, .next⟩, ⟨0, .clone⟩, ⟨1, .nth 7⟩, ⟨0, .count⟩, ⟨1, .next⟩] ∧
      (∃ reports,
        (Bank.ofBytes [5, 5, 6, 6, 7]).run
          [⟨0, .next⟩, ⟨0, .clone⟩, ⟨1, .nth 7⟩, ⟨0, .count⟩, ⟨1, .next⟩] = some reports ∧
        Cursor.run (records [5, 5, 6, 6, 7]) [0]
          [⟨0, .next⟩, ⟨0, .clone⟩, ⟨1, .nth 7⟩, ⟨0, .count⟩, ⟨1, .next⟩] =
            some (reports.map Report.reply)) ∧
      (∃ scanner, (Bank.ofBytes [5, 5, 6])[0]? = some scanner ∧
        repliesAt 0 [⟨1, .next⟩, ⟨0, .count⟩]
          [⟨.record (some (.run 5 2)), (1, 1)⟩, ⟨.amount 2, (0, 0)⟩] = scanner.replies [.count] ∧
        repliesAt 1 [⟨1, .next⟩, ⟨0, .count⟩]
          [⟨.record (some (.run 5 2)), (1, 1)⟩, ⟨.amount 2, (0, 0)⟩] = scanner.replies [.next]) ∧
      (∀ pair ∈ List.zip [⟨0, .clone⟩, ⟨0, .next⟩] [⟨.silent, (0, 0)⟩, ⟨.record none, (0, 0)⟩],
        pair.1 = (⟨0, .next⟩ : Step) → Report.reply pair.2 = .record none) := by
  have addressed : Addressed 1 [⟨0, .next⟩, ⟨0, .clone⟩, ⟨1, .nth 7⟩, ⟨0, .count⟩, ⟨1, .next⟩] := by
    simp [Addressed, Query.copies]
  obtain ⟨refines, apart, fused⟩ := bank_refines_cursors
  refine ⟨addressed, refines _ _ addressed, ?_, ?_⟩
  · exact apart (.ofBytes [5, 5, 6]) 0 [⟨1, .next⟩, ⟨0, .count⟩] ⟨.silent, (1, 3)⟩
      [⟨.record (some (.run 5 2)), (1, 1)⟩, ⟨.amount 2, (0, 0)⟩] (by decide +kernel)
  · exact fused (.ofBytes []) 0 [⟨0, .clone⟩, ⟨0, .next⟩] ⟨.record none, (0, 0)⟩
      [⟨.silent, (0, 0)⟩, ⟨.record none, (0, 0)⟩] (by decide +kernel) rfl

end TilePack.Scanner
