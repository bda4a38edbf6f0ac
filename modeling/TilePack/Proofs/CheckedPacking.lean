import TilePack.Checked
import TilePack.Proofs.Bounds
import TilePack.Proofs.Tallies

/-! Packing with checks is packing without: no check ever fails. The count of a run is
guarded where it grows, the records have a wire form because of how they are cut, and
every sum is bounded by the size of the input that the records divide among them. -/
namespace TilePack.Checked

section Loop

variable {run : OpenRun} {byte : UInt8} {current : Option OpenRun} {closed : Option Record}

theorem increment?_of_accepts (accepted : run.accepts byte = true) :
    increment? run.count = some run.extend.count := by
  obtain ⟨-, room⟩ := (run.accepts_iff byte).mp accepted
  have short : run.count ≠ maxRun := by
    intro full
    rw [full] at room
    exact Nat.lt_irrefl 255 room
  simp [increment?, short, OpenRun.extend]

theorem read_eq (current : Option OpenRun) (byte : UInt8) :
    read current byte = some (match current with
      | none => (none, .start byte)
      | some run =>
        if run.accepts byte then (none, run.extend) else (some run.close, .start byte)) := by
  cases current with
  | none => rfl
  | some run =>
    cases accepted : run.accepts byte with
    | true =>
      simp only [read, accepted, ↓reduceIte, increment?_of_accepts accepted, Option.map_some]
      rfl
    | false => simp [read, accepted]

theorem read_cases (taken : read current byte = some (closed, run)) :
    (∃ before, current = some before ∧ before.accepts byte = true ∧ run = before.extend) ∨
      run = .start byte := by
  rw [read_eq] at taken
  cases current with
  | none => exact .inr (congrArg Prod.snd (Option.some.inj taken)).symm
  | some before =>
    cases accepted : before.accepts byte with
    | true =>
      have same : none = closed ∧ before.extend = run := by simpa [accepted] using taken
      exact .inl ⟨before, rfl, accepted, same.2.symm⟩
    | false =>
      have same : some before.close = closed ∧ .start byte = run := by
        simpa [accepted] using taken
      exact .inr same.2.symm

theorem advance_some (run : OpenRun) (unread : List UInt8) :
    advance (some run) unread =
      some (some (Scanner.advance run unread).1, (Scanner.advance run unread).2) := by
  induction unread generalizing run with
  | nil => rfl
  | cons byte rest ih =>
    cases accepted : run.accepts byte with
    | true => simp [advance, Scanner.advance, read_eq, accepted, ih]
    | false => simp [advance, Scanner.advance, read_eq, accepted]

end Loop

section Steps

variable {scanner rest : Scanner} {record : Record}

theorem next_of_none (ended : scanner.next? = none) : next scanner = some (none, scanner) := by
  rw [Scanner.eq_of_next?_none ended]
  rfl

theorem next_of_some (found : scanner.next? = some (record, rest)) :
    next scanner = some (some record, rest) := by
  rcases Scanner.next?_cases found with
    ⟨run, unread, rfl, advanced⟩ | ⟨byte, unread, rfl, advanced⟩
  · rw [next, advance_some, advanced]
  · have opened : next ⟨byte :: unread, none⟩ = advance (some (.start byte)) unread := rfl
    rw [opened, advance_some, advanced]

theorem take_eq (limit : Nat) (scanner : Scanner) :
    take limit scanner = some (scanner.take limit) := by
  induction limit generalizing scanner with
  | zero => rfl
  | succ limit ih =>
    rw [Scanner.take_succ, take]
    cases found : scanner.next? with
    | none => simp [next_of_none found]
    | some step => simp [next_of_some found, ih]

theorem records_eq (data : List UInt8) : records data = some (TilePack.records data) := by
  simp [records, take_eq, TilePack.records, Scanner.toList, Scanner.drain]

end Steps

section Sums

/-- Checks that pass wherever the unchecked steps lead do not change where they end. -/
theorem foldlM_eq_some {State Item : Type} {check : State → Item → Option State}
    {step : State → Item → State} (start : State) (items : List Item)
    (passes : ∀ done item later, items = done ++ item :: later →
      check (done.foldl step start) item = some (step (done.foldl step start) item)) :
    items.foldlM check start = some (items.foldl step start) := by
  induction items generalizing start with
  | nil => rfl
  | cons item rest ih =>
    have first : check start item = some (step start item) := passes [] item rest rfl
    rw [List.foldlM_cons, first]
    apply ih
    intro done other later split
    exact passes (item :: done) other later (by rw [split, List.cons_append])

theorem add?_eq {first second : Nat} (fits : first + second < wordLimit) :
    add? first second = some (first + second) := by
  simp [add?, fits]

theorem write_eq {record : Record} (valid : record.WellFormed) (buffer : Array UInt8) :
    write buffer record = some (record.pushOnto buffer) := by
  rw [write, record.writeTo_eq buffer valid]
  rfl

variable {data : List UInt8}

theorem encodeOnto_eq (buffer : Array UInt8) (data : List UInt8) :
    encodeOnto buffer data = some (TilePack.encodeOnto buffer data) := by
  have valid := (segments_records data).maximal.wellFormed
  rw [encodeOnto, records_eq]
  apply foldlM_eq_some
  intro done record later split
  exact write_eq (valid record (by simp [split])) _

theorem encode_eq (data : List UInt8) : encode data = some (TilePack.encode data) := by
  simp [encode, encodeOnto_eq]

theorem encodedLength_eq (small : data.length < wordLimit) :
    encodedLength data = some (TilePack.encodedLength data) := by
  rw [encodedLength, records_eq]
  apply foldlM_eq_some
  intro done record later split
  have size := encodedLength_le_length data
  rw [TilePack.encodedLength, split, wireSize_append, wireSize_cons] at size
  apply add?_eq
  change wireSize done + record.wireLength < wordLimit
  omega

end Sums

section Pass

variable {data : List UInt8} {done later : List Record} {record : Record} {progress : Progress}
  {size : Nat} {tally : Tally}

theorem count_eq (record : Record) (literals : tally.literals + 1 < wordLimit)
    (runs : tally.runs + 1 < wordLimit) (flagged : tally.flagged + 1 < wordLimit) :
    count tally record = some (tally.count record) := by
  cases record with
  | literal value =>
    cases high : (Record.literal value).flagged <;>
      simp [count, Tally.count, add?_eq literals, add?_eq flagged, high]
  | run value count =>
    cases high : (Record.run value count).flagged <;>
      simp [Checked.count, Tally.count, add?_eq runs, add?_eq flagged, high]

/-- No counter exceeds the number of records, and the offset not the bytes they cover. -/
theorem add_eq (covers : progress.Covers size done) (valid : record.WellFormed)
    (few : done.length + 1 < wordLimit)
    (within : (expandAll done).length + record.span < wordLimit) :
    add progress record = some (progress.add record) := by
  have room (kind : Record → Bool) : done.countP kind + 1 < wordLimit :=
    Nat.lt_of_le_of_lt (Nat.succ_le_succ List.countP_le_length) few
  have counted : count progress.tally record = some (progress.tally.count record) := by
    rw [covers.tally]
    exact count_eq record (room _) (room _) (room _)
  have moved : add? progress.offset record.span = some (progress.offset + record.span) := by
    rw [covers.offset]
    exact add?_eq within
  simp [add, counted, moved, write_eq valid, Progress.add]

theorem covers_done (split : TilePack.records data = done ++ later) :
    (done.foldl Progress.add { tally := { inputSize := data.length } }).Covers
      data.length done := by
  apply (Progress.covers_start data.length).foldl_add
  intro record member
  apply (segments_records data).maximal.wellFormed
  simp [split, member]

theorem length_expandAll_done (split : TilePack.records data = done ++ later) :
    (expandAll done).length + (expandAll later).length = data.length := by
  rw [← List.length_append, ← expandAll_append, ← split, (segments_records data).covers]

theorem foldlM_add_eq (small : data.length < wordLimit)
    (split : TilePack.records data = done ++ later) :
    done.foldlM add { tally := { inputSize := data.length } } =
      some (done.foldl Progress.add { tally := { inputSize := data.length } }) := by
  apply foldlM_eq_some
  intro earlier record rest inner
  have cut := segments_records data
  rw [inner, List.append_assoc] at split
  have total := length_expandAll_done split
  have most := cut.length_bounds.1
  rw [split, List.length_append] at most
  simp only [List.cons_append, List.length_cons, expandAll_cons, List.length_append,
    Record.length_expand] at total most
  apply add_eq (covers_done split) (cut.maximal.wellFormed record (by simp [split]))
  · omega
  · omega

theorem pass_eq (small : data.length < wordLimit) :
    pass data = some (Progress.ofBytes data) := by
  rw [pass, records_eq]
  exact foldlM_add_eq small (List.append_nil _).symm

theorem pack_eq (settings : Settings) (small : data.length < wordLimit) :
    pack settings data = some (TilePack.pack settings data) := by
  rw [pack, TilePack.pack]
  cases settings.policy.refusal? data with
  | some failure => rfl
  | none => simp [pass_eq small]

end Pass

/-- The states of the loop over `data`, one for each byte read and one for the end. Where a
call returns a record and the next goes on makes no difference to them. -/
inductive Reading (data : List UInt8) : Scanner → Prop where
  | start : Reading data (.ofBytes data)
  | read {current : Option OpenRun} {byte : UInt8} {rest : List UInt8} {closed : Option Record}
      {run : OpenRun} (before : Reading data ⟨byte :: rest, current⟩)
      (taken : Checked.read current byte = some (closed, run)) : Reading data ⟨rest, some run⟩
  | finish {current : Option OpenRun} (before : Reading data ⟨[], current⟩) :
      Reading data ⟨[], none⟩

namespace Reading

variable {data : List UInt8} {scanner rest : Scanner}

theorem counting (reading : Reading data scanner) : scanner.Counting := by
  intro run opened
  induction reading with
  | start => cases opened
  | finish before ih => cases opened
  | read before taken ih =>
    obtain rfl := Option.some.inj opened
    rcases read_cases taken with ⟨earlier, -, accepted, rfl⟩ | rfl
    · rw [OpenRun.toNat_count_extend accepted]
      exact Nat.succ_pos _
    · exact Nat.one_pos

/-- The bytes counted stand in the data, right before those that are unread. -/
theorem remaining_suffix (reading : Reading data scanner) : scanner.remaining <:+ data := by
  induction reading with
  | start => exact List.suffix_rfl
  | finish before ih => exact List.nil_suffix
  | @read current byte rest closed run before taken ih =>
    rcases read_cases taken with ⟨earlier, rfl, accepted, rfl⟩ | rfl
    · have same : earlier.extend.expand ++ rest <:+ data := by
        rw [OpenRun.expand_extend_append accepted]
        exact ih
      exact same
    · have last : byte :: rest <:+ Scanner.remaining ⟨byte :: rest, current⟩ := by
        cases current with
        | none => exact List.suffix_rfl
        | some earlier => exact List.suffix_append _ _
      exact last.trans ih

theorem advance {current : Option OpenRun} {unread : List UInt8} {found : Option Record}
    (reading : Reading data ⟨unread, current⟩)
    (advanced : Checked.advance current unread = some (found, rest)) : Reading data rest := by
  induction unread generalizing current with
  | nil =>
    obtain rfl : ⟨[], none⟩ = rest := congrArg Prod.snd (Option.some.inj advanced)
    exact reading.finish
  | cons byte unread ih =>
    cases taken : Checked.read current byte with
    | none => simp [Checked.advance, taken] at advanced
    | some outcome =>
      obtain ⟨closed, run⟩ := outcome
      have onward := reading.read taken
      cases closed with
      | none => exact ih onward (by simpa [Checked.advance, taken] using advanced)
      | some record =>
        obtain ⟨-, rfl⟩ : some record = found ∧ ⟨unread, some run⟩ = rest := by
          simpa [Checked.advance, taken] using advanced
        exact onward

end Reading

/-- No check fails on an input that memory can hold, in any way to pack or measure it under
any settings. -/
theorem checks_pass (data : List UInt8) (small : data.length < 2 ^ 63) :
    (records data = some (TilePack.records data) ∧
      encode data = some (TilePack.encode data) ∧
      (∀ buffer, encodeOnto buffer data = some (TilePack.encodeOnto buffer data)) ∧
      encodedLength data = some (TilePack.encodedLength data) ∧
      ∀ settings, pack settings data = some (TilePack.pack settings data)) ∧
    (∀ scanner, Reading data scanner →
      (∀ run, scanner.current = some run → 1 ≤ run.count.toNat ∧ run.count.toNat ≤ 255 ∧
        List.replicate run.count.toNat run.value ++ scanner.unread <:+ data) ∧
      (∀ byte rest, scanner.unread = byte :: rest →
        ∃ closed run, read scanner.current byte = some (closed, run)) ∧
      ∃ found rest, next scanner = some (found, rest) ∧ Reading data rest) ∧
    (∀ value count, .run value count ∈ TilePack.records data → 2 ≤ count.toNat) ∧
    ∀ done later, TilePack.records data = done ++ later →
      ∃ progress, done.foldlM add { tally := { inputSize := data.length } } = some progress ∧
        progress.offset ≤ data.length ∧ (later = [] → progress.offset = data.length) := by
  have fits : data.length < wordLimit := Nat.lt_trans small (by decide)
  refine ⟨⟨records_eq data, encode_eq data, fun buffer => encodeOnto_eq buffer data,
    encodedLength_eq fits, fun settings => pack_eq settings fits⟩, ?_, ?_, ?_⟩
  · intro scanner reading
    refine ⟨?_, ?_, ?_⟩
    · intro run opened
      refine ⟨reading.counting run opened, Nat.le_of_lt_succ run.count.toNat_lt, ?_⟩
      have stands := reading.remaining_suffix
      rwa [Scanner.remaining, opened] at stands
    · intro byte rest _
      exact ⟨_, _, read_eq scanner.current byte⟩
    · cases found : scanner.next? with
      | none => exact ⟨none, scanner, next_of_none found, reading⟩
      | some step => exact ⟨_, _, next_of_some found, reading.advance (next_of_some found)⟩
  · intro value count member
    exact (segments_records data).maximal.wellFormed _ member
  · intro done later split
    have covers := covers_done split
    have total := length_expandAll_done split
    refine ⟨_, foldlM_add_eq fits split, ?_, ?_⟩
    · rw [covers.offset]
      omega
    · rintro rfl
      rw [covers.offset]
      exact total

theorem checks_pass_past_full_run :
    let data : List UInt8 := List.replicate 256 7
    let waiting : Scanner := ⟨[], some ⟨7, 1⟩⟩
    data.length < 2 ^ 63 ∧ Reading data waiting ∧ [7] <:+ data ∧
      records data = some [.run 7 255, .literal 7] ∧
      ∃ progress, [.run 7 255].foldlM add { tally := { inputSize := data.length } } =
        some progress ∧ progress.offset ≤ data.length := by
  intro data waiting
  have small : data.length < 2 ^ 63 := by decide +kernel
  have called : next (.ofBytes data) = some (some (.run 7 255), waiting) := by decide +kernel
  have cut : TilePack.records data = [.run 7 255] ++ [.literal 7] := by decide +kernel
  have reading : Reading data waiting := Reading.start.advance called
  obtain ⟨⟨drained, -⟩, steps, -, offsets⟩ := checks_pass data small
  obtain ⟨progress, passed, within, -⟩ := offsets _ _ cut
  rw [cut] at drained
  exact ⟨small, reading, ((steps waiting reading).1 _ rfl).2.2, drained, progress, passed, within⟩

end TilePack.Checked
