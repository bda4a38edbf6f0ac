import Mathlib.Algebra.Order.BigOperators.Group.List
import TilePack.Proofs.Blocks
import TilePack.Proofs.PackedSize
import TilePack.Proofs.Rounding
import TilePack.Proofs.Tallies

/-! The size of a packed byte string in closed form, block by block, and what follows from
it: how far packing can shrink its input, which ratios a job can report, and when nothing
is gained. -/
namespace TilePack

namespace Block

/-- Where the value changes a record ends, so maximal blocks are packed one by one. -/
theorem encodedLength_flatMap_expand {pieces : List Block} (maximal : Maximal pieces) :
    encodedLength (pieces.flatMap expand) = (pieces.map packedSize).sum := by
  induction pieces with
  | nil => rfl
  | cons block rest ih =>
    rw [List.flatMap_cons, encodedLength_expand_append maximal.head?_rest_ne, ih maximal.tail,
      List.map_cons, List.sum_cons]

theorem packedSize_le_length (block : Block) : block.packedSize ≤ block.length := by
  simp only [packedSize]
  omega

theorem packedSize_lt_length {block : Block} (long : 3 ≤ block.length) :
    block.packedSize < block.length := by
  simp only [packedSize]
  omega

theorem packedSize_of_short {block : Block} (short : block.length ≤ 2) :
    block.packedSize = block.length := by
  simp only [packedSize]
  omega

theorem sum_packedSize_eq_iff (pieces : List Block) :
    (pieces.map packedSize).sum = (pieces.map length).sum ↔
      ∀ block ∈ pieces, block.length ≤ 2 := by
  constructor
  · intro same block member
    by_contra long
    have shorter : block.packedSize < block.length := packedSize_lt_length (by omega)
    have less := List.sum_lt_sum packedSize length
      (fun other _ => packedSize_le_length other) ⟨block, member, shorter⟩
    exact absurd same (Nat.ne_of_lt less)
  · intro short
    exact congrArg List.sum
      (List.map_congr_left fun block member => packedSize_of_short (short block member))

end Block

theorem encodedLength_eq_sum (data : List UInt8) :
    encodedLength data = ((blocks data).map Block.packedSize).sum := by
  have sizes := Block.encodedLength_flatMap_expand (maximal_blocks data)
  rwa [expand_blocks] at sizes

theorem length_eq_sum (data : List UInt8) :
    data.length = ((blocks data).map Block.length).sum := by
  have bytes := congrArg List.length (expand_blocks data)
  simpa [List.length_flatMap] using bytes.symm

theorem encodedLength_eq_length_iff (data : List UInt8) :
    encodedLength data = data.length ↔ ∀ byte, ¬ [byte, byte, byte] <:+: data := by
  rw [encodedLength_eq_sum, length_eq_sum, Block.sum_packedSize_eq_iff]
  have triple (byte : UInt8) : [byte, byte, byte] <:+: data ↔
      ∃ block ∈ blocks data, block.value = byte ∧ 3 ≤ block.length :=
    replicate_infix_iff (show 0 < 3 by decide) byte data
  simp only [triple]
  constructor
  · rintro short byte ⟨block, member, -, long⟩
    have bound := short block member
    omega
  · intro absent block member
    by_contra long
    exact absent block.value ⟨block, member, rfl, by omega⟩

/-- A full run of 255 bytes takes two, and no record stands for more. -/
theorem two_mul_length_le (data : List UInt8) : 2 * data.length ≤ 255 * encodedLength data := by
  have most := length_le_count data
  have size := wireSize_eq_count (records data)
  rw [← encodedLength] at size
  omega

theorem encodedLength_pos {data : List UInt8} (nonempty : data ≠ []) : 0 < encodedLength data := by
  have bytes := List.length_pos_iff.mpr nonempty
  have most := two_mul_length_le data
  omega

theorem quotient_bounds {top bottom : Nat} (positive : 0 < bottom) (least : bottom ≤ top)
    (most : 2 * top ≤ 255 * bottom) : 1 ≤ (top / bottom : ℚ) ∧ (top / bottom : ℚ) ≤ 255 / 2 := by
  have divisor : (0 : ℚ) < bottom := by exact_mod_cast positive
  constructor
  · rw [one_le_div divisor]
    exact_mod_cast least
  · rw [div_le_div_iff₀ divisor two_pos, mul_comm]
    exact_mod_cast most

section Ratio

open Decimal Decimal.Binary

/-- Both bounds of the quotient are numbers of full precision, so rounding keeps to them. -/
theorem nearest_bounds {number : Binary} {value : ℚ} (near : number.Nearest value)
    (least : 1 ≤ value) (most : value ≤ 255 / 2) :
    1 ≤ number.toRat ∧ number.toRat ≤ 255 / 2 := by
  have low : toRat ⟨2 ^ 52, -52⟩ = 1 := by norm_num [toRat]
  have high : toRat ⟨255 * 2 ^ 45, -46⟩ = 255 / 2 := by norm_num [toRat]
  constructor
  · calc (1 : ℚ) = toRat ⟨2 ^ 52, -52⟩ := low.symm
      _ ≤ number.toRat := near.le_toRat (by decide) (low.trans_le least)
  · calc number.toRat ≤ toRat ⟨255 * 2 ^ 45, -46⟩ :=
          near.toRat_le (by decide) (most.trans_eq high.symm)
      _ = 255 / 2 := high

variable {tally : Tally} (given : tally.inputSize ≠ 0) (positive : tally.encodedSize ≠ 0)

include given positive

/-- The sizes are rounded first, and then their quotient. -/
theorem nearest_ratio :
    ∃ top bottom : Binary, top.Nearest tally.inputSize ∧ bottom.Nearest tally.encodedSize ∧
      tally.ratio.Nearest (top.toRat / bottom.toRat) := by
  have top := Binary.nearest_ofNat given
  have bottom := Binary.nearest_ofNat positive
  refine ⟨_, _, top, bottom, ?_⟩
  rw [Tally.ratio, if_neg positive]
  exact top.full.nearest_div bottom.full

theorem nearest_ratio_of_small (inputSmall : tally.inputSize < 2 ^ 53)
    (encodedSmall : tally.encodedSize < 2 ^ 53) :
    tally.ratio.Nearest (tally.inputSize / tally.encodedSize) := by
  obtain ⟨top, bottom, topNear, bottomNear, rounded⟩ := nearest_ratio given positive
  obtain ⟨input, inputFull, inputExact⟩ := Binary.exists_full_toRat_eq given inputSmall
  obtain ⟨encoded, encodedFull, encodedExact⟩ := Binary.exists_full_toRat_eq positive encodedSmall
  rwa [topNear.toRat_eq inputFull inputExact, bottomNear.toRat_eq encodedFull encodedExact]
    at rounded

end Ratio

/-- The packed size in closed form, and what follows. The quotient of the sizes lies from 1
to 127.5, and a job reports it rounded, within these bounds up to sizes of 53 bits. -/
theorem encodedLength_closed_form (data : List UInt8) :
    ((blocks data).flatMap Block.expand = data ∧ Block.Maximal (blocks data)) ∧
    encodedLength data = ((blocks data).map Block.packedSize).sum ∧
    encodedLength data ≤ data.length ∧
    2 * data.length ≤ 255 * encodedLength data ∧
    (data ≠ [] → ∀ settings packed, (pack settings data).value = .ok packed →
      let quotient : ℚ := packed.tally.inputSize / packed.tally.encodedSize
      (packed.tally.inputSize = data.length ∧ packed.tally.encodedSize = encodedLength data) ∧
      (1 ≤ quotient ∧ quotient ≤ 255 / 2) ∧
      (∃ top bottom : Decimal.Binary,
        top.Nearest packed.tally.inputSize ∧ bottom.Nearest packed.tally.encodedSize ∧
        packed.tally.ratio.Nearest (top.toRat / bottom.toRat)) ∧
      (data.length < 2 ^ 53 → packed.tally.ratio.Nearest quotient ∧
        1 ≤ packed.tally.ratio.toRat ∧ packed.tally.ratio.toRat ≤ 255 / 2)) ∧
    (encodedLength data = data.length ↔ ∀ byte, ¬ [byte, byte, byte] <:+: data) := by
  have least := encodedLength_le_length data
  have most := two_mul_length_le data
  refine ⟨⟨expand_blocks data, maximal_blocks data⟩, encodedLength_eq_sum data, least, most, ?_,
    encodedLength_eq_length_iff data⟩
  intro nonempty settings packed passed quotient
  obtain rfl := eq_ofBytes_of_pack passed
  have positive := encodedLength_pos nonempty
  have given : data.length ≠ 0 := by omega
  have bounds : 1 ≤ quotient ∧ quotient ≤ 255 / 2 := quotient_bounds positive least most
  refine ⟨⟨rfl, rfl⟩, bounds, nearest_ratio given positive.ne', fun small => ?_⟩
  have near : Decimal.Binary.Nearest _ quotient :=
    nearest_ratio_of_small given positive.ne' small (Nat.lt_of_le_of_lt least small)
  exact ⟨near, nearest_bounds near bounds.1 bounds.2⟩

/-- Three equal bytes are the least that packing gains on, to two thirds. -/
theorem encodedLength_closed_form_triple :
    let packed : Packed :=
      { bytes := [0x87, 3], tally := { inputSize := 3, encodedSize := 2, runs := 1 } }
    (pack {} [7, 7, 7]).value = .ok packed ∧
      packed.tally.ratio.toRat = 3 / 2 ∧ encodedLength [7, 7, 7] ≠ 3 := by
  intro packed
  have passed : (pack {} [7, 7, 7]).value = .ok packed := rfl
  obtain ⟨-, -, -, -, ratios, gained⟩ := encodedLength_closed_form [7, 7, 7]
  obtain ⟨-, -, -, small⟩ := ratios (by simp) {} packed passed
  have exactly : Decimal.Binary.toRat ⟨3 * 2 ^ 51, -52⟩ = 3 / 2 := by
    norm_num [Decimal.Binary.toRat]
  refine ⟨passed, (small (by decide)).1.toRat_eq (by decide) exactly, fun same => ?_⟩
  exact gained.mp same 7 (List.infix_refl _)

/-- Full runs alone reach the upper bound. -/
example : 2 * 510 = 255 * encodedLength (List.replicate 510 7) := by decide +kernel

/-- Of sizes with more than 53 bits, the reported ratio can pass the bound. -/
example : ({ inputSize := 9007199254741215, encodedSize := 70644700037186 } : Tally).reportedRatio =
    "127.50000000000001" := by decide +kernel

end TilePack
