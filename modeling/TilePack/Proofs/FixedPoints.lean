import TilePack.Proofs.Concatenation
import TilePack.Proofs.Tallies

/-! Byte strings that packing leaves as they are. No record is longer on the wire than in
the input, so where nothing is gained each one stands where its own bytes stood, and only
a literal reads the same there. -/
namespace TilePack

namespace Record

/-- A run would have to spell its count with its value, a two, and that is no marker. -/
theorem wire_eq_expand_iff (record : Record) :
    record.wire = record.expand ↔ record.isLiteral = true := by
  cases record with
  | literal value => exact iff_of_true rfl rfl
  | run value count =>
    rw [isLiteral_run, Bool.false_eq_true, iff_false]
    intro same
    have pair : 2 = count.toNat := by
      simpa [wire, span] using congrArg List.length same
    have bytes : [mark value, count] = [value, value] := by
      simpa [wire, expand, span, Record.value, ← pair] using same
    obtain ⟨marked, counted⟩ : mark value = value ∧ count = value := by simpa using bytes
    have flagged : isFlagged value = true := by
      rw [← marked]
      exact isFlagged_mark value
    rw [isFlagged_iff, ← counted, ← pair] at flagged
    omega

theorem literal_mayPrecede_literal_iff (first second : UInt8) :
    (literal first).MayPrecede (literal second) ↔ first ≠ second := by
  simp [MayPrecede, Record.value]

end Record

/-- Records whose wire forms make up their own input are literals. -/
theorem flatMap_wire_eq_expandAll_iff {records : List Record}
    (valid : ∀ record ∈ records, record.WellFormed) :
    records.flatMap Record.wire = expandAll records ↔
      ∀ record ∈ records, record.isLiteral = true := by
  induction records with
  | nil => simp
  | cons record rest ih =>
    obtain ⟨first, later⟩ := List.forall_mem_cons.mp valid
    rw [List.flatMap_cons, expandAll_cons, List.forall_mem_cons, ← ih later,
      ← record.wire_eq_expand_iff]
    constructor
    · intro same
      have total := congrArg List.length same
      have front := first.wireLength_le_span
      have back := wireSize_le_length_expandAll later
      simp only [List.length_append, Record.length_wire, Record.length_expand,
        length_flatMap_wire] at total
      apply List.append_inj same
      rw [Record.length_wire, Record.length_expand]
      omega
    · rintro ⟨head, tail⟩
      rw [head, tail]

theorem map_literal_expandAll {records : List Record}
    (literals : ∀ record ∈ records, record.isLiteral = true) :
    (expandAll records).map Record.literal = records := by
  induction records with
  | nil => rfl
  | cons record rest ih =>
    obtain ⟨first, later⟩ := List.forall_mem_cons.mp literals
    cases record with
    | literal value =>
      rw [expandAll_cons, List.map_append, ih later]
      rfl
    | run value count => cases first

@[simp] theorem expandAll_map_literal (data : List UInt8) :
    expandAll (data.map Record.literal) = data := by
  rw [expandAll, List.flatMap_map]
  exact List.flatMap_singleton' data

theorem segments_map_literal_iff (data : List UInt8) :
    Segments data (data.map Record.literal) ↔ data.IsChain (· ≠ ·) := by
  have chain : (data.map Record.literal).IsChain Record.MayPrecede ↔ data.IsChain (· ≠ ·) := by
    simp only [List.isChain_map, Record.literal_mayPrecede_literal_iff]
  rw [← chain]
  constructor
  · intro cut
    exact cut.isChain
  · intro changes
    refine ⟨expandAll_map_literal data, ?_, (separated_iff_isChain _).mpr changes⟩
    intro record member
    obtain ⟨byte, -, rfl⟩ := List.mem_map.mp member
    trivial

theorem forall_isLiteral_records_iff (data : List UInt8) :
    (∀ record ∈ records data, record.isLiteral = true) ↔ data.IsChain (· ≠ ·) := by
  have cut := segments_records data
  rw [← segments_map_literal_iff]
  constructor
  · intro literals
    have same := map_literal_expandAll literals
    rw [cut.covers] at same
    rwa [same]
  · intro apart record member
    rw [cut.unique apart] at member
    obtain ⟨byte, -, rfl⟩ := List.mem_map.mp member
    rfl

/-- Packing leaves a byte string as it is exactly where no two neighbours are equal,
flagged bytes included. -/
theorem encode_eq_self_iff (data : List UInt8) : encode data = data ↔ data.IsChain (· ≠ ·) := by
  have cut := segments_records data
  have aligned := flatMap_wire_eq_expandAll_iff cut.maximal.wellFormed
  rw [cut.covers, forall_isLiteral_records_iff] at aligned
  exact aligned

/-- Two equal bytes take two on the wire as well, yet not the same two. -/
example : encode [0x82, 2, 2] = [0x82, 0x82, 2] := by decide +kernel

end TilePack
