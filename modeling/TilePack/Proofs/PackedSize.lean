import TilePack.Block
import TilePack.Proofs.WireFormat

/-! The size of a packed byte string. A block of equal bytes becomes full runs and
what is left after them, and no other stream for the same bytes is shorter. -/
namespace TilePack

namespace Block

/-- What follows the full runs of a block. -/
def leftover (value : UInt8) (count : Nat) : List Record :=
  if count = 0 then [] else [OpenRun.close ⟨value, count.toUInt8⟩]

/-- The records of a block on its own: full runs first. -/
def cut (block : Block) : List Record :=
  List.replicate (block.length / 255) (.run block.value maxRun) ++
    leftover block.value (block.length % 255)

private theorem segments_leftover {value : UInt8} {count : Nat} {rest : List UInt8}
    {records : List Record} (small : count < 255) (apart : rest.head? ≠ some value)
    (later : Segments rest records) :
    Segments (List.replicate count value ++ rest) (leftover value count ++ records) := by
  by_cases empty : count = 0
  · simpa [leftover, empty] using later
  · have counted : count.toUInt8.toNat = count := Nat.mod_eq_of_lt (by omega)
    have valid : (OpenRun.close ⟨value, count.toUInt8⟩).WellFormed :=
      OpenRun.wellFormed_close (by simp only [counted]; omega)
    have bytes : List.replicate count value = (OpenRun.close ⟨value, count.toUInt8⟩).expand := by
      rw [OpenRun.expand_close, OpenRun.expand, counted]
    simp only [leftover, empty, ↓reduceIte, List.singleton_append]
    rw [bytes]
    apply later.cons valid
    intro continues
    rw [OpenRun.value_close] at continues
    exact absurd continues apart

private theorem segments_full (value : UInt8) (number : Nat) {rest : List UInt8}
    {records : List Record} (later : Segments rest records) :
    Segments (List.replicate (255 * number) value ++ rest)
      (List.replicate number (.run value maxRun) ++ records) := by
  induction number with
  | zero => simpa using later
  | succ number ih =>
    have valid : (Record.run value maxRun).WellFormed := by simp [Record.WellFormed, maxRun]
    have bytes : List.replicate (255 * (number + 1)) value =
        (Record.run value maxRun).expand ++ List.replicate (255 * number) value := by
      simp only [Record.expand, Record.value, Record.span, List.replicate_append_replicate]
      rw [Nat.mul_succ, Nat.add_comm]
      rfl
    rw [bytes, List.append_assoc]
    exact ih.cons valid (fun _ => rfl)

theorem segments_cut {block : Block} {rest : List UInt8} {records : List Record}
    (apart : rest.head? ≠ some block.value) (later : Segments rest records) :
    Segments (block.expand ++ rest) (block.cut ++ records) := by
  have small : block.length % 255 < 255 := Nat.mod_lt _ (by decide)
  have whole := segments_full block.value (block.length / 255) (segments_leftover small apart later)
  rw [← List.append_assoc, List.replicate_append_replicate, Nat.div_add_mod,
    ← List.append_assoc] at whole
  exact whole

/-- A block that ends where the value changes is cut on its own. -/
theorem records_expand_append {block : Block} {rest : List UInt8}
    (apart : rest.head? ≠ some block.value) :
    records (block.expand ++ rest) = block.cut ++ records rest :=
  (segments_records _).unique (segments_cut apart (segments_records rest))

private theorem length_wire_full (value : UInt8) (number : Nat) :
    ((List.replicate number (Record.run value maxRun)).flatMap Record.wire).length = 2 * number := by
  induction number with
  | zero => rfl
  | succ number ih =>
    rw [List.replicate_succ, List.flatMap_cons, List.length_append, ih, Record.length_wire,
      Record.wireLength]
    omega

private theorem length_wire_leftover (value : UInt8) {count : Nat} (small : count < 255) :
    ((leftover value count).flatMap Record.wire).length = min count 2 := by
  by_cases empty : count = 0
  · simp [leftover, empty]
  · by_cases single : count = 1
    · simp [leftover, single, OpenRun.close, Record.wireLength]
    · have several : count.toUInt8 ≠ 1 := by
        intro same
        have counted := congrArg UInt8.toNat same
        simp at counted
        omega
      simp [leftover, empty, OpenRun.close, several, Record.wireLength]
      omega

theorem length_wire_cut (block : Block) :
    (block.cut.flatMap Record.wire).length = block.packedSize := by
  have small : block.length % 255 < 255 := Nat.mod_lt _ (by decide)
  rw [cut, List.flatMap_append, List.length_append, length_wire_full, length_wire_leftover _ small,
    packedSize]

theorem length_encode_expand_append {block : Block} {rest : List UInt8}
    (apart : rest.head? ≠ some block.value) :
    (encode (block.expand ++ rest)).length = block.packedSize + (encode rest).length := by
  rw [encode, records_expand_append apart, List.flatMap_append, List.length_append,
    length_wire_cut, encode]

theorem encodedLength_expand_append {block : Block} {rest : List UInt8}
    (apart : rest.head? ≠ some block.value) :
    encodedLength (block.expand ++ rest) = block.packedSize + encodedLength rest := by
  rw [← length_encode, length_encode_expand_append apart, length_encode]

theorem packedSize_add_le (value : UInt8) (first second : Nat) :
    packedSize ⟨value, first + second⟩ ≤
      packedSize ⟨value, first⟩ + packedSize ⟨value, second⟩ := by
  simp only [packedSize]
  omega

theorem packedSize_span_le (record : Record) :
    packedSize ⟨record.value, record.span⟩ ≤ record.wireLength := by
  have bound := record.span_le
  cases record with
  | literal value => simp [packedSize, Record.span, Record.wireLength]
  | run value count =>
    simp only [packedSize, Record.wireLength]
    omega

/-- Any bytes begin with a block of a given value, empty if they begin otherwise. -/
theorem exists_leading (value : UInt8) (data : List UInt8) :
    ∃ (count : Nat) (rest : List UInt8),
      data = expand ⟨value, count⟩ ++ rest ∧ rest.head? ≠ some value := by
  induction data with
  | nil => exact ⟨0, [], rfl, by simp⟩
  | cons byte data ih =>
    by_cases same : byte = value
    · obtain ⟨count, rest, split, apart⟩ := ih
      refine ⟨count + 1, rest, ?_, apart⟩
      rw [same, split]
      rfl
    · exact ⟨0, byte :: data, rfl, by simpa using same⟩

end Block

/-- Putting a record's bytes in front costs no more than the record's wire form, for
whatever count it has. -/
theorem length_encode_expand_append_le (record : Record) (data : List UInt8) :
    (encode (record.expand ++ data)).length ≤ record.wireLength + (encode data).length := by
  obtain ⟨count, rest, split, apart⟩ := Block.exists_leading record.value data
  have joined : record.expand ++ data = Block.expand ⟨record.value, record.span + count⟩ ++ rest := by
    rw [split, ← List.append_assoc]
    simp only [Record.expand, Block.expand, List.replicate_append_replicate]
  have size : Block.packedSize ⟨record.value, record.span + count⟩ ≤
      record.wireLength + Block.packedSize ⟨record.value, count⟩ :=
    Nat.le_trans (Block.packedSize_add_le record.value record.span count)
      (Nat.add_le_add_right (Block.packedSize_span_le record) _)
  rw [joined, split, Block.length_encode_expand_append apart, Block.length_encode_expand_append apart,
    ← Nat.add_assoc]
  exact Nat.add_le_add_right size _

/-- Records of any kind, short and empty runs among them, take at least as many bytes
as packing what they stand for. -/
theorem length_encode_expandAll_le (records : List Record) :
    (encode (expandAll records)).length ≤ (records.flatMap Record.wire).length := by
  induction records with
  | nil => exact Nat.le_refl 0
  | cons record rest ih =>
    have step := length_encode_expand_append_le record (expandAll rest)
    simp only [expandAll_cons, List.flatMap_cons, List.length_append, Record.length_wire]
    omega

/-- No stream that unpacks to the same bytes is shorter than packing makes it. -/
theorem length_encode_le_of_unpack {stream data : List UInt8}
    (unpacked : unpack stream = some data) : (encode data).length ≤ stream.length := by
  obtain ⟨records, spells, same⟩ := unpack_eq_some_iff.mp unpacked
  rw [← same, ← (spelled?_sound spells).1]
  exact length_encode_expandAll_le records

/-- An empty run, a run of one and an early split all cost more than they have to. -/
theorem length_encode_le_wasteful_stream :
    unpack [0x85, 0, 0x90, 1, 0x90, 254, 0x90, 3, 0x10] = some (List.replicate 259 0x10) ∧
      (encode (List.replicate 259 0x10)).length ≤ 9 := by
  have unpacked : unpack [0x85, 0, 0x90, 1, 0x90, 254, 0x90, 3, 0x10] =
      some (List.replicate 259 0x10) := by decide +kernel
  exact ⟨unpacked, length_encode_le_of_unpack unpacked⟩

end TilePack
