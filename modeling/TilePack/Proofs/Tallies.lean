import TilePack.Proofs.Packing

/-! What a finished job counts, held against its input and its output. The counters, the
buffer and the two ways to measure it come from separate passes over the records. -/
namespace TilePack

/-- A literal takes one byte on the wire and a run two. -/
theorem wireSize_eq_count (records : List Record) :
    wireSize records =
      records.countP Record.isLiteral + 2 * records.countP fun record => !record.isLiteral := by
  induction records with
  | nil => rfl
  | cons record rest ih =>
    rw [wireSize_cons, ih, List.countP_cons, List.countP_cons]
    cases record <;> simp [Record.wireLength] <;> omega

theorem length_expandAll_le_count (records : List Record) :
    (expandAll records).length ≤
      records.countP Record.isLiteral + 255 * records.countP fun record => !record.isLiteral := by
  induction records with
  | nil => exact Nat.le_refl 0
  | cons record rest ih =>
    have bound := record.span_le
    rw [expandAll_cons, List.length_append, Record.length_expand, List.countP_cons, List.countP_cons]
    cases record with
    | literal value => simp [Record.span]; omega
    | run value count => simp; omega

theorem Record.WellFormed.wireLength_le_span {record : Record} (valid : record.WellFormed) :
    record.wireLength ≤ record.span := by
  cases record with
  | literal value => exact Nat.le_refl 1
  | run value count => exact valid

theorem wireSize_le_length_expandAll {records : List Record}
    (valid : ∀ record ∈ records, record.WellFormed) :
    wireSize records ≤ (expandAll records).length := by
  induction records with
  | nil => exact Nat.le_refl 0
  | cons record rest ih =>
    have first := (valid record (by simp)).wireLength_le_span
    have later := ih (fun other member => valid other (by simp [member]))
    rw [wireSize_cons, expandAll_cons, List.length_append, Record.length_expand]
    exact Nat.add_le_add first later

theorem encodedLength_le_length (data : List UInt8) : encodedLength data ≤ data.length := by
  have cut := segments_records data
  have size := wireSize_le_length_expandAll cut.maximal.wellFormed
  rwa [cut.covers] at size

theorem length_le_count (data : List UInt8) :
    data.length ≤ (records data).countP Record.isLiteral +
      255 * (records data).countP fun record => !record.isLiteral := by
  have most := length_expandAll_le_count (records data)
  rwa [(segments_records data).covers] at most

/-- Whatever the settings, a job that is done has packed its whole input. -/
theorem eq_ofBytes_of_pack {settings : Settings} {data : List UInt8} {packed : Packed}
    (passed : (pack settings data).value = .ok packed) : packed = Packed.ofBytes data := by
  rw [← Progress.finish_ofBytes]
  cases refusal : settings.policy.refusal? data with
  | some failure =>
    rw [pack_of_refused refusal] at passed
    cases passed
  | none =>
    rw [pack_of_accepted refusal] at passed
    exact (Except.ok.inj passed).symm

theorem Record.flagged_iff (record : Record) : record.flagged = true ↔ 0x80 ≤ record.value := by
  rw [flagged, isFlagged_iff, UInt8.le_iff_toNat_le]
  rfl

/-- All ways to pack and measure a byte string agree, and so do the counters of a job. -/
theorem packings_agree (data : List UInt8) (settings : Settings) (packed : Packed)
    (passed : (pack settings data).value = .ok packed) :
    let tally := packed.tally
    packed.bytes = encode data ∧
    (∀ buffer, encodeOnto buffer data = buffer ++ (encode data).toArray) ∧
    tally.inputSize = data.length ∧
    tally.encodedSize = (encode data).length ∧
    (encode data).length = encodedLength data ∧
    encodedLength data = tally.literals + 2 * tally.runs ∧
    tally.literals = (records data).countP Record.isLiteral ∧
    tally.runs = ((records data).countP fun record => !record.isLiteral) ∧
    tally.flagged = ((records data).countP fun record => 0x80 ≤ record.value) ∧
    tally.literals + 2 * tally.runs ≤ tally.inputSize ∧
    tally.inputSize ≤ tally.literals + 255 * tally.runs := by
  have whole := eq_ofBytes_of_pack passed
  have size := wireSize_eq_count (records data)
  have least := encodedLength_le_length data
  rw [encodedLength, size] at least
  subst packed
  refine ⟨rfl, ?_, rfl, (length_encode data).symm, length_encode data, size, rfl, rfl, ?_,
    least, length_le_count data⟩
  · intro buffer
    apply Array.toList_inj.mp
    simp
  · apply List.countP_congr
    intro record _
    rw [decide_eq_true_iff]
    exact record.flagged_iff

theorem packings_agree_flagged_pair :
    let data : List UInt8 := [1, 1, 1, 0x90, 0x90, 2]
    let packed : Packed := {
      bytes := [0x81, 3, 0x90, 2, 2]
      tally := { inputSize := 6, encodedSize := 5, literals := 1, runs := 2, flagged := 1 } }
    (pack {} data).value = .ok packed ∧
      packed.bytes = encode data ∧ encodedLength data = 1 + 2 * 2 := by
  intro data packed
  have passed : (pack {} data).value = .ok packed := rfl
  obtain ⟨bytes, -, -, -, -, size, -⟩ := packings_agree data {} packed passed
  exact ⟨passed, bytes, size⟩

end TilePack
