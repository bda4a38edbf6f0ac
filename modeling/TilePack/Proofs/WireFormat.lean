import TilePack.Proofs.Scanning

/-! Packed streams read back. A stream spells its records in one way, unpacking gives
what they stand for, and the streams that packing makes are the canonical ones. Flagged
bytes lose bit 7 on the way, and nothing more where they are packed in runs. -/
namespace TilePack

namespace Record

/-- The wire form reads as one record. A run begins with a marker whatever its value is,
while a literal must not look like one. -/
def Legible (record : Record) : Prop := record.isLiteral = true → record.flagged = false

/-- A record as it is read back, without bit 7. -/
def lowered : Record → Record
  | .literal value => .literal (unmark value)
  | .run value count => .run (unmark value) count

theorem lowered_of_plain {record : Record} (plain : record.flagged = false) :
    record.lowered = record := by
  cases record with
  | literal value => rw [lowered, unmark_of_plain value plain]
  | run value count => rw [lowered, unmark_of_plain value plain]

@[simp] theorem expand_lowered (record : Record) :
    record.lowered.expand = record.expand.map unmark := by
  cases record <;> simp [lowered, expand, span, Record.value]

end Record

theorem expandAll_map_lowered (records : List Record) :
    expandAll (records.map Record.lowered) = (expandAll records).map unmark := by
  induction records with
  | nil => rfl
  | cons record rest ih => simp [ih]

theorem spelled?_wire_append {record : Record} (legible : record.Legible) (rest : List UInt8) :
    spelled? (record.wire ++ rest) = (spelled? rest).map (record.lowered :: ·) := by
  cases record with
  | literal value =>
    have plain : isFlagged value = false := legible rfl
    rw [Record.lowered, unmark_of_plain value plain]
    exact spelled?_cons_of_plain plain rest
  | run value count => simp [Record.wire, spelled?, Record.lowered]

/-- Legible records are read back from their wire forms, with no mark between them or after
the last. -/
theorem spelled?_flatMap_wire_append {records : List Record}
    (legible : ∀ record ∈ records, record.Legible) (rest : List UInt8) :
    spelled? (records.flatMap Record.wire ++ rest) =
      (spelled? rest).map (records.map Record.lowered ++ ·) := by
  induction records with
  | nil => simp
  | cons record later ih =>
    have following := ih (fun other member => legible other (by simp [member]))
    rw [List.flatMap_cons, List.append_assoc, spelled?_wire_append (legible record (by simp)),
      following, Option.map_map]
    rfl

theorem spelled?_flatMap_wire_append_of_plain {records : List Record}
    (plain : ∀ record ∈ records, record.flagged = false) (rest : List UInt8) :
    spelled? (records.flatMap Record.wire ++ rest) = (spelled? rest).map (records ++ ·) := by
  have unchanged : records.map Record.lowered = records.map id :=
    List.map_congr_left fun record member => Record.lowered_of_plain (plain record member)
  rw [spelled?_flatMap_wire_append (fun record member _ => plain record member), unchanged,
    List.map_id]

theorem spelled?_flatMap_wire {records : List Record}
    (plain : ∀ record ∈ records, record.flagged = false) :
    spelled? (records.flatMap Record.wire) = some records := by
  simpa [spelled?] using spelled?_flatMap_wire_append_of_plain plain []

/-- Reading loses nothing: the records found write the same stream, and no marker
carries bit 7 into a value. -/
theorem spelled?_sound {stream : List UInt8} {records : List Record}
    (spells : spelled? stream = some records) :
    records.flatMap Record.wire = stream ∧ ∀ record ∈ records, record.flagged = false := by
  fun_induction spelled? stream generalizing records with
  | case1 =>
    have empty : [] = records := Option.some.inj spells
    subst records
    simp
  | case2 byte flagged => cases spells
  | case3 byte flagged count rest ih =>
    obtain ⟨later, found, same⟩ := Option.map_eq_some_iff.mp spells
    obtain ⟨written, plain⟩ := ih found
    subst records
    refine ⟨?_, List.forall_mem_cons.mpr ⟨?_, plain⟩⟩
    · simp [Record.wire, mark_unmark byte flagged, written]
    · exact isFlagged_unmark byte
  | case4 byte rest flagged ih =>
    obtain ⟨later, found, same⟩ := Option.map_eq_some_iff.mp spells
    obtain ⟨written, plain⟩ := ih found
    subst records
    refine ⟨?_, List.forall_mem_cons.mpr ⟨?_, plain⟩⟩
    · simp [Record.wire, written]
    · exact Bool.eq_false_iff.mpr flagged

/-- The unpacker never sees records, yet gives what the spelled ones stand for. -/
theorem unpack_eq_map_spelled? (stream : List UInt8) :
    unpack stream = (spelled? stream).map expandAll := by
  fun_induction spelled? stream with
  | case1 => rfl
  | case2 byte flagged => simp [unpack, flagged]
  | case3 byte flagged count rest ih =>
    simp only [unpack, flagged, ↓reduceIte, ih, Option.map_map]
    rfl
  | case4 byte rest flagged ih =>
    rw [unpack_cons_of_plain (Bool.eq_false_iff.mpr flagged), ih, Option.map_map, Option.map_map]
    rfl

theorem unpack_eq_some_iff {stream data : List UInt8} :
    unpack stream = some data ↔
      ∃ records, spelled? stream = some records ∧ expandAll records = data := by
  rw [unpack_eq_map_spelled?]
  exact Option.map_eq_some_iff

theorem unpack_wire {record : Record} (plain : record.flagged = false) :
    unpack record.wire = some record.expand := by
  have spells : spelled? record.wire = some [record] := by
    simpa using spelled?_flatMap_wire (List.forall_mem_singleton.mpr plain)
  exact unpack_eq_some_iff.mpr ⟨[record], spells, by simp⟩

/-- A stream that unpacks says itself where it ends. -/
theorem spelled?_append {stream : List UInt8} {records : List Record}
    (spells : spelled? stream = some records) (rest : List UInt8) :
    spelled? (stream ++ rest) = (spelled? rest).map (records ++ ·) := by
  obtain ⟨written, plain⟩ := spelled?_sound spells
  rw [← written]
  exact spelled?_flatMap_wire_append_of_plain plain rest

theorem unpack_append {first second data more : List UInt8} (unpacked : unpack first = some data)
    (next : unpack second = some more) : unpack (first ++ second) = some (data ++ more) := by
  obtain ⟨records, spells, rfl⟩ := unpack_eq_some_iff.mp unpacked
  obtain ⟨later, follows, rfl⟩ := unpack_eq_some_iff.mp next
  refine unpack_eq_some_iff.mpr ⟨records ++ later, ?_, List.flatMap_append⟩
  rw [spelled?_append spells, follows]
  rfl

theorem mem_expandAll {byte : UInt8} {records : List Record} :
    byte ∈ expandAll records ↔ ∃ record ∈ records, record.span ≠ 0 ∧ byte = record.value := by
  simp [expandAll, Record.expand]

theorem plain_of_unpack {stream data : List UInt8} (unpacked : unpack stream = some data) :
    ∀ byte ∈ data, isFlagged byte = false := by
  obtain ⟨records, spells, same⟩ := unpack_eq_some_iff.mp unpacked
  intro byte member
  rw [← same] at member
  obtain ⟨record, present, _, value⟩ := mem_expandAll.mp member
  rw [value]
  exact (spelled?_sound spells).2 record present

theorem Segments.value_mem {data : List UInt8} {records : List Record} {record : Record}
    (cut : Segments data records) (member : record ∈ records) : record.value ∈ data := by
  have positive := (cut.maximal.wellFormed record member).span_pos
  rw [← cut.covers]
  exact mem_expandAll.mpr ⟨record, member, Nat.ne_of_gt positive, rfl⟩

theorem Segments.plain {data : List UInt8} {records : List Record} (cut : Segments data records)
    (plain : ∀ byte ∈ data, isFlagged byte = false) :
    ∀ record ∈ records, record.flagged = false :=
  fun record member => plain record.value (cut.value_mem member)

theorem spelled?_encode {data : List UInt8} (plain : ∀ byte ∈ data, isFlagged byte = false) :
    spelled? (encode data) = some (records data) :=
  spelled?_flatMap_wire ((segments_records data).plain plain)

theorem unpack_encode {data : List UInt8} (plain : ∀ byte ∈ data, isFlagged byte = false) :
    unpack (encode data) = some data :=
  unpack_eq_some_iff.mpr ⟨records data, spelled?_encode plain, (segments_records data).covers⟩

/-- Unpacking undoes packing on bytes below 128 and on no others. -/
theorem unpack_encode_iff (data : List UInt8) :
    unpack (encode data) = some data ↔ ∀ byte ∈ data, byte < 0x80 := by
  constructor
  · intro unpacked byte member
    exact (isFlagged_eq_false_iff_lt byte).mp (plain_of_unpack unpacked byte member)
  · intro low
    exact unpack_encode fun byte member => (isFlagged_eq_false_iff_lt byte).mpr (low byte member)

/-- Legible records come out of the unpacker in full, and without bit 7. -/
theorem unpack_flatMap_wire {records : List Record}
    (legible : ∀ record ∈ records, record.Legible) :
    unpack (records.flatMap Record.wire) = some ((expandAll records).map unmark) := by
  have spells : spelled? (records.flatMap Record.wire) = some (records.map Record.lowered) := by
    simpa [spelled?] using spelled?_flatMap_wire_append legible []
  exact unpack_eq_some_iff.mpr ⟨_, spells, expandAll_map_lowered records⟩

/-- The canonical streams are those that packing gives back after unpacking. -/
theorem canonical_iff_encode_unpack (stream : List UInt8) :
    Canonical stream ↔ ∃ data, unpack stream = some data ∧ encode data = stream := by
  constructor
  · rintro ⟨found, spells, maximal⟩
    have cut : Segments (expandAll found) found := ⟨rfl, maximal⟩
    refine ⟨expandAll found, ?_, ?_⟩
    · exact unpack_eq_some_iff.mpr ⟨found, spells, rfl⟩
    · rw [encode, (segments_records _).unique cut]
      exact (spelled?_sound spells).1
  · rintro ⟨data, unpacked, packed⟩
    refine ⟨records data, ?_, (segments_records data).maximal⟩
    rw [← packed]
    exact spelled?_encode (plain_of_unpack unpacked)

/-- Runs of flagged bytes lose bit 7 and nothing else. -/
theorem unpack_encode_flagged_runs (data : List UInt8)
    (low : ∀ value, .literal value ∈ records data → value < 0x80) :
    ∃ output, unpack (encode data) = some output ∧ output = data.map (· &&& 0x7F) ∧
      output.length = data.length ∧
      ∀ (index : Nat) (byte : UInt8), data[index]? = some byte →
        ∃ kept, output[index]? = some kept ∧ kept.toNat = byte.toNat % 128 ∧
          (byte < 0x80 → kept = byte) := by
  have legible : ∀ record ∈ records data, record.Legible := by
    intro record member literal
    cases record with
    | literal value => exact (isFlagged_eq_false_iff_lt value).mpr (low value member)
    | run value count => cases literal
  have unpacked := unpack_flatMap_wire legible
  rw [(segments_records data).covers] at unpacked
  refine ⟨data.map unmark, unpacked, rfl, List.length_map unmark, ?_⟩
  intro index byte present
  refine ⟨unmark byte, ?_, toNat_unmark byte, ?_⟩
  · rw [List.getElem?_map, present]
    rfl
  · intro plain
    exact unmark_of_plain byte ((isFlagged_eq_false_iff_lt byte).mpr plain)

theorem unpack_encode_flagged_neighbours :
    let data : List UInt8 := [0x85, 0x85, 5, 5, 5, 9, 0x89, 0x89]
    (∀ value, .literal value ∈ records data → value < 0x80) ∧
      unpack (encode data) = some [5, 5, 5, 5, 5, 9, 9, 9] := by
  intro data
  have cut : records data = [.run 0x85 2, .run 5 3, .literal 9, .run 0x89 2] := by decide +kernel
  have low : ∀ value, .literal value ∈ records data → value < 0x80 := by
    intro value member
    obtain rfl : value = 9 := by simpa [cut] using member
    decide
  obtain ⟨output, unpacked, lowered, -⟩ := unpack_encode_flagged_runs data low
  rw [lowered] at unpacked
  exact ⟨low, unpacked⟩

/-- A flagged byte left over from a full run is read as a marker, and the byte after it as
its count. -/
example : unpack (encode (List.replicate 256 0x90 ++ [3])) = some (List.replicate 258 0x10) := by
  decide +kernel

end TilePack
