import TilePack.Proofs.Blocks
import TilePack.Proofs.PackedSize

/-! Two byte strings packed together and apart. Only the last record of the first can
change, and it stays as it is exactly where the seam falls between two records. However
the records after it move, the size changes by two bytes at most. -/
namespace TilePack

theorem separated_iff_isChain (records : List Record) :
    Separated records ↔ records.IsChain Record.MayPrecede := by
  induction records with
  | nil => simp [Separated]
  | cons first rest ih =>
    cases rest with
    | nil => simp [Separated]
    | cons second rest => rw [Separated, ih, List.isChain_cons_cons]

namespace Segments

variable {data first second : List UInt8} {pieces others : List Record}

theorem isChain (cut : Segments data pieces) : pieces.IsChain Record.MayPrecede :=
  (separated_iff_isChain pieces).mp cut.maximal.separated

theorem getLast?_eq (cut : Segments data pieces) :
    data.getLast? = pieces.getLast?.map Record.value := by
  rcases List.eq_nil_or_concat pieces with rfl | ⟨front, last, rfl⟩
  · simp [segments_nil_iff.mp cut]
  · rw [List.concat_eq_append] at cut ⊢
    have filled := (cut.maximal.wellFormed last (by simp)).span_pos
    rw [← cut.covers]
    simp [Record.expand, List.getLast?_replicate, Nat.ne_of_gt filled]

theorem front (cut : Segments data (pieces ++ others)) : Segments (expandAll pieces) pieces := by
  refine ⟨rfl, ?_, ?_⟩
  · intro record member
    exact cut.maximal.wellFormed record (by simp [member])
  · exact (separated_iff_isChain pieces).mpr (List.isChain_append.mp cut.isChain).1

/-- Segmentations are joined where the last record takes nothing of what follows. -/
theorem append_iff (cut : Segments first pieces) (other : Segments second others) :
    Segments (first ++ second) (pieces ++ others) ↔
      ∀ last ∈ pieces.getLast?, last.MayLead second := by
  simp only [other.mayLead_iff]
  constructor
  · intro joined
    exact (List.isChain_append.mp joined.isChain).2.2
  · intro fits
    refine ⟨?_, ?_, ?_⟩
    · rw [expandAll_append, cut.covers, other.covers]
    · exact List.forall_mem_append.mpr ⟨cut.maximal.wellFormed, other.maximal.wellFormed⟩
    · have chain := List.isChain_append.mpr ⟨cut.isChain, other.isChain, fits⟩
      exact (separated_iff_isChain (pieces ++ others)).mpr chain

end Segments

theorem records_append_iff_mayLead (first second : List UInt8) :
    records (first ++ second) = records first ++ records second ↔
      ∀ last ∈ (records first).getLast?, last.MayLead second := by
  rw [← (segments_records first).append_iff (segments_records second)]
  constructor
  · intro same
    rw [← same]
    exact segments_records (first ++ second)
  · intro joined
    exact (segments_records (first ++ second)).unique joined

theorem Segments.records_append {first : List UInt8} {earlier : List Record} {last : Record}
    (cut : Segments first (earlier ++ [last])) (second : List UInt8) :
    records (first ++ second) = earlier ++ records (last.expand ++ second) := by
  have valid := cut.maximal.wellFormed last (by simp)
  have whole : first ++ second = expandAll earlier ++ (last.expand ++ second) := by
    rw [← cut.covers]
    simp
  have fits : ∀ previous ∈ earlier.getLast?, previous.MayLead (last.expand ++ second) := by
    intro previous member continues
    have precedes := (List.isChain_append.mp cut.isChain).2.2 previous member last (by simp)
    rw [valid.head?_expand_append] at continues
    exact precedes (Option.some.inj continues).symm
  rw [whole]
  exact (segments_records _).unique ((cut.front.append_iff (segments_records _)).mpr fits)

namespace Block

theorem exists_getLast?_cut {block : Block} (filled : 0 < block.length) :
    ∃ last, block.cut.getLast? = some last ∧ last.value = block.value ∧
      (last = .run block.value maxRun ↔ 255 ∣ block.length) := by
  by_cases whole : block.length % 255 = 0
  · refine ⟨.run block.value maxRun, ?_, rfl, ?_⟩
    · have several : block.length / 255 ≠ 0 := by omega
      simp [cut, leftover, whole, List.getLast?_replicate, several]
    · simp [Nat.dvd_of_mod_eq_zero whole]
  · refine ⟨OpenRun.close ⟨block.value, (block.length % 255).toUInt8⟩, ?_, ?_, ?_⟩
    · simp [cut, leftover, whole]
    · exact OpenRun.value_close _
    · have counted : (block.length % 255).toUInt8.toNat = block.length % 255 :=
        Nat.mod_eq_of_lt (by omega)
      constructor
      · intro full
        have span := OpenRun.span_close ⟨block.value, (block.length % 255).toUInt8⟩
        rw [full, counted] at span
        have reached : 255 = block.length % 255 := span
        omega
      · intro divides
        exact absurd (Nat.mod_eq_zero_of_dvd divides) whole

theorem records_append_expand {front : List UInt8} {block : Block} (filled : 0 < block.length)
    (apart : front.getLast? ≠ some block.value) :
    records (front ++ block.expand) = records front ++ block.cut := by
  have alone : records (block.expand ++ []) = block.cut ++ records [] :=
    records_expand_append (by simp)
  have begins := head?_expand_append filled []
  simp only [List.append_nil, records_nil] at alone begins
  rw [← alone, records_append_iff_mayLead]
  intro last ends continues
  have value : front.getLast? = some last.value := by
    rw [(segments_records front).getLast?_eq, ends]
    rfl
  rw [value, ← continues, begins] at apart
  exact absurd rfl apart

end Block

/-- Packing may start afresh between `first` and `second`: the value changes there, or
full runs end exactly there. -/
def CleanCut (first second : List UInt8) : Prop :=
  first = [] ∨ second = [] ∨ first.getLast? ≠ second.head? ∨ 255 ∣ lastBlockLength first

instance (first second : List UInt8) : Decidable (CleanCut first second) :=
  inferInstanceAs (Decidable (_ ∨ _))

/-- The last record takes nothing of what follows exactly at a clean cut. -/
theorem mayLead_iff_cleanCut (first second : List UInt8) :
    (∀ last ∈ (records first).getLast?, last.MayLead second) ↔ CleanCut first second := by
  by_cases empty : first = []
  · simp [empty, CleanCut]
  · obtain ⟨front, block, rfl, apart, filled, length⟩ := exists_last_block empty
    obtain ⟨last, ends, value, full⟩ := Block.exists_getLast?_cut filled
    have final : (records (front ++ block.expand)).getLast? = some last := by
      rw [Block.records_append_expand filled apart, List.getLast?_append, ends]
      rfl
    have ending := Block.getLast?_append_expand filled front
    constructor
    · intro leads
      by_cases continues : second.head? = some block.value
      · have whole := leads last final (continues.trans (congrArg some value.symm))
        rw [value, full, ← length] at whole
        exact .inr (.inr (.inr whole))
      · rw [← ending] at continues
        exact .inr (.inr (.inl (Ne.symm continues)))
    · intro clean other member continues
      obtain rfl : last = other := Option.some.inj (final.symm.trans member)
      rw [value] at continues ⊢
      rcases clean with absent | ended | changed | divides
      · exact absurd absent empty
      · simp [ended] at continues
      · exact absurd (ending.trans continues.symm) changed
      · rw [full, ← length]
        exact divides

theorem records_append_iff_cleanCut (first second : List UInt8) :
    records (first ++ second) = records first ++ records second ↔ CleanCut first second :=
  (records_append_iff_mayLead first second).trans (mayLead_iff_cleanCut first second)

theorem encode_append_of_records {first second : List UInt8}
    (apart : records (first ++ second) = records first ++ records second) :
    encode (first ++ second) = encode first ++ encode second := by
  rw [encode, apart, List.flatMap_append, encode, encode]

/-- Streams of plain values show how they were cut. -/
theorem records_append_of_encode {first second : List UInt8}
    (plain : ∀ byte ∈ first ++ second, isFlagged byte = false)
    (apart : encode (first ++ second) = encode first ++ encode second) :
    records (first ++ second) = records first ++ records second := by
  obtain ⟨left, right⟩ := List.forall_mem_append.mp plain
  have together := spelled?_encode plain
  rw [apart, spelled?_append (spelled?_encode left), spelled?_encode right] at together
  exact (Option.some.inj together).symm

/-- More bytes change no record but the last, and that one only where the cut is not clean. -/
theorem records_append_law (first second : List UInt8) :
    (first ≠ [] → ∃ last, (records first).getLast? = some last ∧
      records (first ++ second) =
        (records first).dropLast ++ records (last.expand ++ second)) ∧
    (records (first ++ second) = records first ++ records second ↔ CleanCut first second) ∧
    (CleanCut first second → encode (first ++ second) = encode first ++ encode second) ∧
    ((∀ byte ∈ first ++ second, byte < 0x80) →
      encode (first ++ second) = encode first ++ encode second → CleanCut first second) := by
  have cut := segments_records first
  refine ⟨?_, records_append_iff_cleanCut first second, ?_, ?_⟩
  · intro nonempty
    rcases List.eq_nil_or_concat (records first) with empty | ⟨earlier, last, split⟩
    · rw [empty] at cut
      exact absurd (segments_nil_iff.mp cut) nonempty
    · rw [List.concat_eq_append] at split
      rw [split] at cut ⊢
      exact ⟨last, by simp, by simpa using cut.records_append second⟩
  · intro clean
    exact encode_append_of_records ((records_append_iff_cleanCut first second).mpr clean)
  · intro low apart
    have alone := records_append_of_encode (plain_iff_lt.mpr low) apart
    exact (records_append_iff_cleanCut first second).mp alone

/-- One byte past a full run the cut is not clean: the byte is packed with the next one. -/
theorem records_append_law_past_full_run :
    let first : List UInt8 := List.replicate 256 7
    first ≠ [] ∧ (∀ byte ∈ first ++ [7], byte < 0x80) ∧
      records (first ++ [7]) = .run 7 255 :: records [7, 7] ∧
      encode (first ++ [7]) ≠ encode first ++ encode [7] := by
  intro first
  have nonempty : first ≠ [] := List.cons_ne_nil _ _
  have low : ∀ byte ∈ first ++ [7], byte < 0x80 := by decide +kernel
  have cut : records first = [.run 7 255, .literal 7] := by decide +kernel
  have within : ¬ CleanCut first [7] := by decide +kernel
  obtain ⟨recut, -, -, necessary⟩ := records_append_law first [7]
  obtain ⟨last, ends, same⟩ := recut nonempty
  rw [cut] at ends same
  obtain rfl : .literal 7 = last := Option.some.inj ends
  exact ⟨nonempty, low, same, fun apart => within (necessary low apart)⟩

/-- A flagged byte and a full run of it read alike from either side, so their streams meet
at a cut that is not clean. -/
example :
    encode ([0xFF] ++ List.replicate 255 0xFF) = encode [0xFF] ++ encode (List.replicate 255 0xFF) ∧
      ¬ CleanCut [0xFF] (List.replicate 255 0xFF) := by
  decide +kernel

theorem encodedLength_append_of_cleanCut {first second : List UInt8}
    (clean : CleanCut first second) :
    encodedLength (first ++ second) = encodedLength first + encodedLength second := by
  have apart := encode_append_of_records ((records_append_iff_cleanCut first second).mpr clean)
  rw [← length_encode, apart, List.length_append, length_encode, length_encode]

namespace Block

theorem encodedLength_append_expand_append {front rest : List UInt8} {block : Block}
    (filled : 0 < block.length) (before : front.getLast? ≠ some block.value)
    (after : rest.head? ≠ some block.value) :
    encodedLength (front ++ (block.expand ++ rest)) =
      encodedLength front + (block.packedSize + encodedLength rest) := by
  have clean : CleanCut front (block.expand ++ rest) := by
    rw [← head?_expand_append filled rest] at before
    exact .inr (.inr (.inl before))
  rw [encodedLength_append_of_cleanCut clean, encodedLength_expand_append after]

theorem packedSize_le_of_le (value : UInt8) {fewer more : Nat} (within : fewer ≤ more) :
    packedSize ⟨value, fewer⟩ ≤ packedSize ⟨value, more⟩ := by
  simp only [packedSize]
  omega

/-- Packing two stretches of a value as one saves a run at most. -/
theorem packedSize_add_packedSize_le (value : UInt8) (ending going : Nat) :
    packedSize ⟨value, ending⟩ + packedSize ⟨value, going⟩ ≤
      packedSize ⟨value, ending + going⟩ + 2 := by
  simp only [packedSize]
  omega

end Block

/-- Packed together and apart, two byte strings differ in one block: the last of the first
string, which may go on in the second. -/
theorem exists_seam (first second : List UInt8) :
    ∃ (front rest : Nat) (value : UInt8) (ending going : Nat),
      encodedLength first = front + Block.packedSize ⟨value, ending⟩ ∧
      encodedLength second = Block.packedSize ⟨value, going⟩ + rest ∧
      encodedLength (first ++ second) =
        front + (Block.packedSize ⟨value, ending + going⟩ + rest) := by
  by_cases empty : first = []
  · subst first
    exact ⟨0, encodedLength second, 0, 0, 0, rfl, by simp [Block.packedSize],
      by simp [Block.packedSize]⟩
  · obtain ⟨front, ⟨value, ending⟩, rfl, before, filled, -⟩ := exists_last_block empty
    obtain ⟨going, rest, rfl, after⟩ := Block.exists_leading value second
    refine ⟨encodedLength front, encodedLength rest, value, ending, going, ?_, ?_, ?_⟩
    · have ended : ([] : List UInt8).head? ≠ some value := by simp
      simpa using Block.encodedLength_append_expand_append filled before ended
    · exact Block.encodedLength_expand_append after
    · have joined : front ++ Block.expand ⟨value, ending⟩ ++ (Block.expand ⟨value, going⟩ ++ rest) =
          front ++ (Block.expand ⟨value, ending + going⟩ ++ rest) := by
        simp [Block.expand, ← List.replicate_append_replicate]
      rw [joined]
      exact Block.encodedLength_append_expand_append (Nat.add_pos_left filled going) before after

theorem encodedLength_append_le (first second : List UInt8) :
    encodedLength (first ++ second) ≤ encodedLength first + encodedLength second := by
  obtain ⟨front, rest, value, ending, going, one, other, joined⟩ := exists_seam first second
  have size := Block.packedSize_add_le value ending going
  omega

theorem encodedLength_le_append_left (first second : List UInt8) :
    encodedLength first ≤ encodedLength (first ++ second) := by
  obtain ⟨front, rest, value, ending, going, one, -, joined⟩ := exists_seam first second
  have size := Block.packedSize_le_of_le value (Nat.le_add_right ending going)
  omega

theorem encodedLength_le_append_right (first second : List UInt8) :
    encodedLength second ≤ encodedLength (first ++ second) := by
  obtain ⟨front, rest, value, ending, going, -, other, joined⟩ := exists_seam first second
  have size := Block.packedSize_le_of_le value (Nat.le_add_left going ending)
  omega

theorem encodedLength_add_le (first second : List UInt8) :
    encodedLength first + encodedLength second ≤ encodedLength (first ++ second) + 2 := by
  obtain ⟨front, rest, value, ending, going, one, other, joined⟩ := exists_seam first second
  have size := Block.packedSize_add_packedSize_le value ending going
  omega

/-- Packed together, two byte strings take no less than either alone and no more than both
apart, and save two bytes at most. -/
theorem encodedLength_append_bounds (first second : List UInt8) :
    max (encodedLength first) (encodedLength second) ≤ encodedLength (first ++ second) ∧
    encodedLength (first ++ second) ≤ encodedLength first + encodedLength second ∧
    encodedLength first + encodedLength second ≤ encodedLength (first ++ second) + 2 ∧
    ∀ byte, encodedLength first ≤ encodedLength (first ++ [byte]) ∧
      encodedLength (first ++ [byte]) ≤ encodedLength first + 1 := by
  refine ⟨?_, encodedLength_append_le first second, encodedLength_add_le first second, ?_⟩
  · exact Nat.max_le.mpr ⟨encodedLength_le_append_left first second,
      encodedLength_le_append_right first second⟩
  · intro byte
    exact ⟨encodedLength_le_append_left first [byte], encodedLength_append_le first [byte]⟩

/-- Joining two parts of one run saves two bytes; where a full run ends early in the second
part, nothing may be saved at all. -/
example :
    encodedLength (List.replicate 100 7) + encodedLength (List.replicate 155 7) =
        encodedLength (List.replicate 100 7 ++ List.replicate 155 7) + 2 ∧
      encodedLength (List.replicate 254 7) + encodedLength (List.replicate 3 7) =
        encodedLength (List.replicate 254 7 ++ List.replicate 3 7) := by
  decide +kernel

end TilePack
