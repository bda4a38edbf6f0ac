import TilePack.Packing
import TilePack.Proofs.WireFormat

/-! Packing a buffer, told by its input. The pass over the records knows at every point
what a scan of the bytes they cover would find, so the policies agree on which byte is
the first that cannot be packed. -/
namespace TilePack

/-- The first byte with bit 7 set, and where it stands. -/
structure FirstFlagged (data : List UInt8) (offset : Nat) (value : UInt8) : Prop where
  found : data[offset]? = some value
  flagged : isFlagged value = true
  earlier : ∀ index byte, index < offset → data[index]? = some byte → isFlagged byte = false

theorem findIdx?_isFlagged_iff {data : List UInt8} {offset : Nat} :
    data.findIdx? isFlagged = some offset ↔ ∃ value, FirstFlagged data offset value := by
  rw [List.findIdx?_eq_some_iff_getElem]
  constructor
  · rintro ⟨within, flagged, earlier⟩
    refine ⟨data[offset], List.getElem?_eq_getElem within, flagged, ?_⟩
    intro index byte before found
    obtain ⟨_, rfl⟩ := List.getElem?_eq_some_iff.mp found
    exact Bool.eq_false_iff.mpr (earlier index before)
  · rintro ⟨value, first⟩
    obtain ⟨within, rfl⟩ := List.getElem?_eq_some_iff.mp first.found
    refine ⟨within, first.flagged, ?_⟩
    intro index before
    have present : data[index]? = some data[index] := List.getElem?_eq_getElem _
    exact Bool.eq_false_iff.mp (first.earlier index _ before present)

theorem firstFlaggedByte?_eq_some_iff {data : List UInt8} {offset : Nat} {value : UInt8} :
    firstFlaggedByte? data = some (value, offset) ↔ FirstFlagged data offset value := by
  have places : data.findIdx? isFlagged = (firstFlaggedByte? data).map Prod.snd :=
    List.findIdx?_eq_fst_find?_zipIdx
  have stands {byte : UInt8} {index : Nat} (found : firstFlaggedByte? data = some (byte, index)) :
      data[index]? = some byte :=
    List.mem_zipIdx_iff_getElem?.mp (List.mem_of_find?_eq_some found)
  constructor
  · intro found
    rw [found] at places
    obtain ⟨other, first⟩ := findIdx?_isFlagged_iff.mp places
    obtain rfl : value = other := Option.some.inj ((stands found).symm.trans first.found)
    exact first
  · intro first
    rw [findIdx?_isFlagged_iff.mpr ⟨value, first⟩] at places
    obtain ⟨⟨byte, index⟩, found, same⟩ := Option.map_eq_some_iff.mp places.symm
    obtain rfl : index = offset := same
    obtain rfl : byte = value := Option.some.inj ((stands found).symm.trans first.found)
    exact found

namespace Tally

theorem count_eq (tally : Tally) (record : Record) :
    tally.count record = { tally with
      literals := tally.literals + if record.isLiteral then 1 else 0
      runs := tally.runs + if record.isLiteral then 0 else 1
      flagged := tally.flagged + if record.flagged then 1 else 0 } := by
  cases flagged : record.flagged <;> cases record <;> simp [count, flagged, Record.isLiteral]

end Tally

/-- An input packed whole, and its counts. -/
def Packed.ofBytes (data : List UInt8) : Packed where
  bytes := encode data
  tally :=
    { inputSize := data.length
      encodedSize := encodedLength data
      literals := (records data).countP Record.isLiteral
      runs := (records data).countP fun record => !record.isLiteral
      flagged := (records data).countP Record.flagged }

namespace Progress

/-- The state of the pass over an input of `size` bytes, after the records `done`. -/
structure Covers (progress : Progress) (size : Nat) (done : List Record) : Prop where
  tally : progress.tally =
    { inputSize := size
      literals := done.countP Record.isLiteral
      runs := done.countP fun record => !record.isLiteral
      flagged := done.countP Record.flagged }
  offset : progress.offset = (expandAll done).length
  firstFlagged : progress.firstFlagged = (expandAll done).findIdx? isFlagged
  buffer : progress.buffer.toList = done.flatMap Record.wire

theorem covers_start (size : Nat) : Covers { tally := { inputSize := size } } size [] :=
  ⟨rfl, rfl, rfl, rfl⟩

/-- The first flagged byte of one more record is its own first, if it comes to that. -/
theorem findIdx?_expandAll_concat (done : List Record) {record : Record}
    (valid : record.WellFormed) :
    (expandAll (done ++ [record])).findIdx? isFlagged =
      if ((expandAll done).findIdx? isFlagged).isNone && record.flagged then
        some (expandAll done).length
      else (expandAll done).findIdx? isFlagged := by
  have joined : expandAll (done ++ [record]) = expandAll done ++ record.expand := by simp
  have own : record.expand.findIdx? isFlagged = if record.flagged then some 0 else none := by
    rw [Record.expand, List.findIdx?_replicate]
    cases flagged : isFlagged record.value <;> simp [Record.flagged, flagged, valid.span_pos]
  rw [joined, List.findIdx?_append, own]
  cases (expandAll done).findIdx? isFlagged <;> cases record.flagged <;> simp

/-- One more record keeps the state in step with the bytes covered. -/
theorem Covers.add {progress : Progress} {size : Nat} {done : List Record} {record : Record}
    (covers : progress.Covers size done) (valid : record.WellFormed) :
    (progress.add record).Covers size (done ++ [record]) := by
  refine ⟨?_, ?_, ?_, ?_⟩
  · simp only [Progress.add, Tally.count_eq, covers.tally, List.countP_append,
      List.countP_singleton]
    cases record.isLiteral <;> rfl
  · simp [Progress.add, covers.offset, expandAll]
  · rw [findIdx?_expandAll_concat done valid, ← covers.firstFlagged, ← covers.offset]
    rfl
  · simp [Progress.add, covers.buffer]

theorem Covers.foldl_add {progress : Progress} {size : Nat} {done records : List Record}
    (covers : progress.Covers size done) (valid : ∀ record ∈ records, record.WellFormed) :
    (records.foldl Progress.add progress).Covers size (done ++ records) := by
  induction records generalizing progress done with
  | nil => simpa using covers
  | cons record rest ih =>
    have step := covers.add (valid record (by simp))
    have later := ih step (fun other member => valid other (by simp [member]))
    simpa using later

theorem covers_ofBytes (data : List UInt8) :
    (Progress.ofBytes data).Covers data.length (records data) :=
  (covers_start data.length).foldl_add (segments_records data).maximal.wellFormed

/-- Offsets summed over the records find the byte that a scan finds. -/
theorem firstFlagged_ofBytes (data : List UInt8) :
    (Progress.ofBytes data).firstFlagged = data.findIdx? isFlagged := by
  rw [(covers_ofBytes data).firstFlagged, (segments_records data).covers]

theorem finish_ofBytes (data : List UInt8) :
    (Progress.ofBytes data).finish = Packed.ofBytes data := by
  have covers := covers_ofBytes data
  have size : (Progress.ofBytes data).buffer.size = encodedLength data := by
    rw [← Array.length_toList, covers.buffer, length_flatMap_wire, encodedLength]
  simp [finish, Packed.ofBytes, covers.tally, covers.buffer, size, encode]

theorem bytes_finish_ofBytes (data : List UInt8) :
    (Progress.ofBytes data).finish.bytes = encode data :=
  congrArg Packed.bytes (finish_ofBytes data)

end Progress

section Policies

variable {settings : Settings} {report : ReportFormat} {data : List UInt8} {offset : Nat}
  {value : UInt8} {failure : Failure}

theorem firstFlagged_or_plain (data : List UInt8) :
    (∃ offset value, FirstFlagged data offset value) ∨ ∀ byte ∈ data, isFlagged byte = false := by
  cases scanned : data.findIdx? isFlagged with
  | some offset => exact .inl ⟨offset, findIdx?_isFlagged_iff.mp scanned⟩
  | none => exact .inr (List.findIdx?_eq_none_iff.mp scanned)

theorem FirstFlagged.mem (first : FirstFlagged data offset value) : value ∈ data :=
  List.mem_of_getElem? first.found

theorem exists_firstFlagged_iff (data : List UInt8) :
    (∃ offset value, FirstFlagged data offset value) ↔ ∃ byte ∈ data, isFlagged byte = true := by
  constructor
  · rintro ⟨offset, value, first⟩
    exact ⟨value, first.mem, first.flagged⟩
  · intro present
    rcases firstFlagged_or_plain data with first | plain
    · exact first
    · exact absurd present (by simpa using plain)

theorem Policy.refusal?_of_first (first : FirstFlagged data offset value) :
    Policy.refusal? .reject data = some (.flaggedByte offset value) := by
  simp [Policy.refusal?, firstFlaggedByte?_eq_some_iff.mpr first]

theorem Policy.refusal?_of_plain (plain : ∀ byte ∈ data, isFlagged byte = false)
    (policy : Policy) : policy.refusal? data = none := by
  cases policy with
  | allow => rfl
  | warn => rfl
  | reject =>
    cases found : firstFlaggedByte? data with
    | none => simp [Policy.refusal?, found]
    | some pair =>
      have first := firstFlaggedByte?_eq_some_iff.mp found
      exact absurd first.flagged (by simp [plain pair.1 first.mem])

theorem pack_of_refused (refused : settings.policy.refusal? data = some failure) :
    pack settings data = ⟨.error failure, []⟩ := by
  simp [pack, refused]

theorem pack_of_accepted (accepted : settings.policy.refusal? data = none) :
    pack settings data = ⟨.ok (Progress.ofBytes data).finish,
      (Progress.ofBytes data).warnings settings.policy ++
        [.packed (Progress.ofBytes data).finish.tally]⟩ := by
  simp [pack, accepted]

theorem exists_flagged_record_iff (data : List UInt8) :
    (∃ record ∈ records data, record.flagged = true) ↔ ∃ byte ∈ data, isFlagged byte = true := by
  have cut := segments_records data
  constructor
  · rintro ⟨record, member, flagged⟩
    exact ⟨record.value, cut.value_mem member, flagged⟩
  · rintro ⟨byte, member, flagged⟩
    rw [← cut.covers] at member
    obtain ⟨record, present, -, rfl⟩ := mem_expandAll.mp member
    exact ⟨record, present, flagged⟩

theorem flagged_finish_ofBytes_pos_iff (data : List UInt8) :
    0 < (Progress.ofBytes data).finish.tally.flagged ↔ ∃ byte ∈ data, isFlagged byte = true := by
  rw [Progress.finish_ofBytes, ← exists_flagged_record_iff]
  exact List.countP_pos_iff

theorem pack_reject_of_first (first : FirstFlagged data offset value) (report : ReportFormat) :
    pack ⟨.reject, report⟩ data = ⟨.error (.flaggedByte offset value), []⟩ :=
  pack_of_refused (Policy.refusal?_of_first first)

theorem pack_warn_of_first (first : FirstFlagged data offset value) (report : ReportFormat) :
    pack ⟨.warn, report⟩ data = ⟨.ok (Progress.ofBytes data).finish,
      [.flagged (Progress.ofBytes data).finish.tally.flagged offset,
        .packed (Progress.ofBytes data).finish.tally]⟩ := by
  have scanned := Progress.firstFlagged_ofBytes data
  rw [findIdx?_isFlagged_iff.mpr ⟨value, first⟩] at scanned
  simp [pack, Policy.refusal?, Progress.warnings, scanned, Progress.finish]

/-- Without a flagged byte the policy makes no difference. -/
theorem pack_of_plain (plain : ∀ byte ∈ data, isFlagged byte = false) (settings : Settings) :
    pack settings data = ⟨.ok (Progress.ofBytes data).finish,
      [.packed (Progress.ofBytes data).finish.tally]⟩ := by
  have scanned := Progress.firstFlagged_ofBytes data
  rw [List.findIdx?_eq_none_iff.mpr plain] at scanned
  rw [pack_of_accepted (Policy.refusal?_of_plain plain settings.policy)]
  simp [Progress.warnings, scanned]

theorem pack_reject_eq_error_iff :
    (pack ⟨.reject, report⟩ data).value = .error (.flaggedByte offset value) ↔
      FirstFlagged data offset value := by
  constructor
  · intro failed
    rcases firstFlagged_or_plain data with ⟨other, another, first⟩ | plain
    · rw [pack_reject_of_first first] at failed
      obtain ⟨rfl, rfl⟩ := Failure.flaggedByte.inj (Except.error.inj failed)
      exact first
    · rw [pack_of_plain plain] at failed
      cases failed
  · intro first
    rw [pack_reject_of_first first]

theorem pack_reject_of_error
    (failed : (pack ⟨.reject, report⟩ data).value = .error failure) :
    (∃ offset value, failure = .flaggedByte offset value) ∧
      (pack ⟨.reject, report⟩ data).events = [] := by
  rcases firstFlagged_or_plain data with ⟨offset, value, first⟩ | plain
  · rw [pack_reject_of_first first] at failed ⊢
    exact ⟨⟨offset, value, (Except.error.inj failed).symm⟩, rfl⟩
  · rw [pack_of_plain plain] at failed
    cases failed

theorem pack_reject_of_ok {packed : Packed}
    (passed : (pack ⟨.reject, report⟩ data).value = .ok packed) :
    packed = (Progress.ofBytes data).finish ∧
      (Progress.ofBytes data).finish.tally.flagged = 0 := by
  rcases firstFlagged_or_plain data with ⟨offset, value, first⟩ | plain
  · rw [pack_reject_of_first first] at passed
    cases passed
  · rw [pack_of_plain plain] at passed
    refine ⟨(Except.ok.inj passed).symm, Nat.eq_zero_of_not_pos ?_⟩
    rw [flagged_finish_ofBytes_pos_iff]
    simpa using plain

theorem warns_iff (data : List UInt8) (report : ReportFormat) :
    (∃ event ∈ (pack ⟨.warn, report⟩ data).events, event.level = "WARN") ↔
      ∃ offset value, FirstFlagged data offset value := by
  constructor
  · rintro ⟨event, noted, warning⟩
    rcases firstFlagged_or_plain data with first | plain
    · exact first
    · rw [pack_of_plain plain] at noted
      rw [List.mem_singleton.mp noted] at warning
      simp [Event.level] at warning
  · rintro ⟨offset, value, first⟩
    rw [pack_warn_of_first first]
    exact ⟨_, List.mem_cons_self, rfl⟩

theorem Event.render_flagged (records first : Nat) (elapsed : String) :
    (Event.flagged records first).render elapsed =
      "WARN " ++ toString records ++
        " record(s) carry a value with bit 7 set (first at input offset " ++ toString first ++
        "); output will not unpack losslessly" := by
  have start : "WARN " = "WARN" ++ " " := rfl
  have finish : "); output will not unpack losslessly" =
      "); " ++ "output will not unpack losslessly" := rfl
  have line : (Event.flagged records first).render elapsed =
      "WARN" ++ " " ++ (toString records ++
        " record(s) carry a value with bit 7 set (first at input offset " ++ toString first ++
        "); " ++ "output will not unpack losslessly") := rfl
  simp only [line, start, finish, String.append_assoc]

end Policies

/-- Rejecting fails at the first flagged byte; then, and only then, warning notes that place
with the number of flagged records. -/
theorem policies_agree (data : List UInt8) (report : Policy → ReportFormat) :
    let rejected := pack ⟨.reject, report .reject⟩ data
    let warned := pack ⟨.warn, report .warn⟩ data
    let allowed := pack ⟨.allow, report .allow⟩ data
    let fails := ∃ offset value, rejected.value = .error (.flaggedByte offset value)
    (∀ offset value, rejected.value = .error (.flaggedByte offset value) ↔
      FirstFlagged data offset value) ∧
    (fails ↔ ∃ byte ∈ data, isFlagged byte = true) ∧
    (∀ failure, rejected.value = .error failure → fails ∧ rejected.events = []) ∧
    (fails ↔ ∃ event ∈ warned.events, event.level = "WARN") ∧
    ∃ packed, warned.value = .ok packed ∧ allowed.value = .ok packed ∧
      (∀ event ∈ allowed.events, event.level ≠ "WARN") ∧
      (∀ offset value, rejected.value = .error (.flaggedByte offset value) →
        0 < packed.tally.flagged ∧
        warned.events = [.flagged packed.tally.flagged offset, .packed packed.tally] ∧
        ∀ elapsed, (warned.events.filter (·.level = "WARN")).map (Event.render elapsed) =
          ["WARN " ++ toString packed.tally.flagged ++
            " record(s) carry a value with bit 7 set (first at input offset " ++ toString offset ++
            "); output will not unpack losslessly"]) ∧
      (∀ own, rejected.value = .ok own → own = packed ∧ packed.tally.flagged = 0) := by
  intro rejected warned allowed fails
  have failing : fails ↔ ∃ offset value, FirstFlagged data offset value :=
    exists_congr fun offset => exists_congr fun value => pack_reject_eq_error_iff
  refine ⟨fun offset value => pack_reject_eq_error_iff, ?_, ?_, ?_,
    (Progress.ofBytes data).finish, rfl, rfl, ?_, ?_, fun own => pack_reject_of_ok⟩
  · exact failing.trans (exists_firstFlagged_iff data)
  · intro failure failed
    obtain ⟨⟨offset, value, rfl⟩, silent⟩ := pack_reject_of_error failed
    exact ⟨⟨offset, value, failed⟩, silent⟩
  · exact failing.trans (warns_iff data (report .warn)).symm
  · intro event noted
    rw [List.mem_singleton.mp noted]
    simp [Event.level]
  · intro offset value failed
    have first := pack_reject_eq_error_iff.mp failed
    have present : ∃ byte ∈ data, isFlagged byte = true := ⟨value, first.mem, first.flagged⟩
    have noted : warned.events = _ :=
      congrArg Logged.events (pack_warn_of_first first (report .warn))
    refine ⟨(flagged_finish_ofBytes_pos_iff data).mpr present, noted, fun elapsed => ?_⟩
    rw [noted]
    exact congrArg ([·]) (Event.render_flagged _ _ elapsed)

end TilePack
