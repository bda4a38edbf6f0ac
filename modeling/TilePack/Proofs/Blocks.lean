import Mathlib.Data.List.Chain
import TilePack.Block

/-! The blocks of a byte string are maximal: none is empty, and the value changes from
each to the next. So the last one is all that the string ends in, and a value stands so
many times in a row only where one block is as long. -/
namespace TilePack

namespace Block

/-- Blocks that cannot be made longer. -/
structure Maximal (pieces : List Block) : Prop where
  nonempty : ∀ block ∈ pieces, 0 < block.length
  changes : pieces.IsChain fun first second => first.value ≠ second.value

theorem Maximal.tail {block : Block} {rest : List Block} (maximal : Maximal (block :: rest)) :
    Maximal rest :=
  ⟨fun other member => maximal.nonempty other (by simp [member]), maximal.changes.tail⟩

/-- One more byte in front makes the first block longer or stands before it. -/
theorem Maximal.cons {pieces : List Block} (maximal : Maximal pieces) (byte : UInt8) :
    Maximal (Block.cons byte pieces) := by
  cases pieces with
  | nil => exact ⟨by simp [Block.cons], by simp [Block.cons]⟩
  | cons block rest =>
    by_cases same : block.value = byte
    · subst byte
      simp only [Block.cons, ↓reduceIte]
      refine ⟨?_, ?_⟩
      · exact List.forall_mem_cons.mpr ⟨Nat.succ_pos _, maximal.tail.nonempty⟩
      · exact List.isChain_cons.mpr (List.isChain_cons.mp maximal.changes)
    · simp only [Block.cons, same, ↓reduceIte]
      refine ⟨?_, ?_⟩
      · exact List.forall_mem_cons.mpr ⟨Nat.one_pos, maximal.nonempty⟩
      · exact maximal.changes.cons_cons (Ne.symm same)

theorem head?_expand_append {block : Block} (filled : 0 < block.length) (rest : List UInt8) :
    (block.expand ++ rest).head? = some block.value := by
  rw [List.head?_append, expand, List.head?_replicate, if_neg (Nat.ne_of_gt filled)]
  rfl

theorem getLast?_append_expand {block : Block} (filled : 0 < block.length) (front : List UInt8) :
    (front ++ block.expand).getLast? = some block.value := by
  rw [List.getLast?_append, expand, List.getLast?_replicate, if_neg (Nat.ne_of_gt filled)]
  rfl

theorem Maximal.head?_rest_ne {block : Block} {rest : List Block}
    (maximal : Maximal (block :: rest)) : (rest.flatMap expand).head? ≠ some block.value := by
  cases rest with
  | nil => simp
  | cons next rest =>
    have filled := maximal.nonempty next (by simp)
    rw [List.flatMap_cons, head?_expand_append filled]
    intro same
    exact maximal.changes.rel (Option.some.inj same).symm

theorem Maximal.getLast?_front_ne {front : List Block} {block : Block}
    (maximal : Maximal (front ++ [block])) : (front.flatMap expand).getLast? ≠ some block.value := by
  rcases List.eq_nil_or_concat front with rfl | ⟨earlier, previous, rfl⟩
  · simp
  · have filled := maximal.nonempty previous (by simp)
    have joined := (List.isChain_append.mp maximal.changes).2.2 previous (by simp) block (by simp)
    rw [List.concat_eq_append, List.flatMap_append, List.flatMap_singleton,
      getLast?_append_expand filled]
    intro same
    exact joined (Option.some.inj same)

/-- How many bytes of a value come first. -/
def lead (value : UInt8) : List Block → Nat
  | [] => 0
  | block :: _ => if block.value = value then block.length else 0

theorem lead_cons (value byte : UInt8) (pieces : List Block) :
    lead value (Block.cons byte pieces) = if byte = value then lead value pieces + 1 else 0 := by
  cases pieces with
  | nil => simp [Block.cons, lead]
  | cons block rest =>
    by_cases same : block.value = byte
    · subst byte
      by_cases found : block.value = value <;> simp [Block.cons, lead, found]
    · by_cases found : byte = value
      · subst byte
        simp [Block.cons, lead, same]
      · simp [Block.cons, lead, same, found]

/-- A long stretch in front is a long first block. -/
theorem le_lead_iff {count : Nat} (positive : 0 < count) (value : UInt8) (block : Block)
    (rest : List Block) :
    count ≤ lead value (block :: rest) ↔ block.value = value ∧ count ≤ block.length := by
  by_cases found : block.value = value
  · simp [lead, found]
  · simp [lead, found, Nat.ne_of_gt positive]

theorem exists_long_cons_iff {count : Nat} (positive : 0 < count) (value byte : UInt8)
    (pieces : List Block) :
    (∃ block ∈ Block.cons byte pieces, block.value = value ∧ count ≤ block.length) ↔
      count ≤ lead value (Block.cons byte pieces) ∨
        ∃ block ∈ pieces, block.value = value ∧ count ≤ block.length := by
  cases pieces with
  | nil => simp [Block.cons, le_lead_iff positive]
  | cons block rest =>
    by_cases same : block.value = byte
    · subst byte
      simp only [Block.cons, ↓reduceIte, le_lead_iff positive, List.mem_cons,
        exists_eq_or_imp]
      constructor
      · rintro (longer | later)
        · exact .inl longer
        · exact .inr (.inr later)
      · rintro (longer | ⟨found, enough⟩ | later)
        · exact .inl longer
        · exact .inl ⟨found, Nat.le_succ_of_le enough⟩
        · exact .inr later
    · simp [Block.cons, same, le_lead_iff positive]

end Block

theorem maximal_blocks (data : List UInt8) : Block.Maximal (blocks data) := by
  induction data with
  | nil => exact ⟨by simp, by simp⟩
  | cons byte data ih => exact ih.cons byte

/-- Bytes end with their last block, and before it another value stands. -/
theorem exists_last_block {data : List UInt8} (nonempty : data ≠ []) :
    ∃ (front : List UInt8) (block : Block), data = front ++ block.expand ∧
      front.getLast? ≠ some block.value ∧ 0 < block.length ∧
      lastBlockLength data = block.length := by
  have covers := expand_blocks data
  have maximal := maximal_blocks data
  rcases List.eq_nil_or_concat (blocks data) with empty | ⟨front, block, split⟩
  · rw [empty] at covers
    exact absurd covers.symm nonempty
  · rw [List.concat_eq_append] at split
    rw [split] at covers maximal
    refine ⟨front.flatMap Block.expand, block, ?_, maximal.getLast?_front_ne, ?_, ?_⟩
    · simpa using covers.symm
    · exact maximal.nonempty block (by simp)
    · simp [lastBlockLength, split]

theorem replicate_prefix_iff (count : Nat) (value : UInt8) (data : List UInt8) :
    List.replicate count value <+: data ↔ count ≤ Block.lead value (blocks data) := by
  induction data generalizing count with
  | nil => simp [Block.lead]
  | cons byte data ih =>
    rw [blocks_cons, Block.lead_cons]
    cases count with
    | zero => simp
    | succ count =>
      rw [List.replicate_succ, List.cons_prefix_cons, ih]
      by_cases same : byte = value
      · simp [same]
      · simp [same, Ne.symm same]

/-- A value stands `count` times in a row exactly where a block of it is as long. -/
theorem replicate_infix_iff {count : Nat} (positive : 0 < count) (value : UInt8)
    (data : List UInt8) :
    List.replicate count value <:+: data ↔
      ∃ block ∈ blocks data, block.value = value ∧ count ≤ block.length := by
  induction data with
  | nil => simp [Nat.ne_of_gt positive]
  | cons byte data ih =>
    rw [List.infix_cons_iff, replicate_prefix_iff, ih, blocks_cons,
      Block.exists_long_cons_iff positive]

end TilePack
