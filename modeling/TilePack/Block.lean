import TilePack.Byte

/-! Maximal blocks of equal bytes, of any length. The size of a packed byte string
depends on nothing else. -/
namespace TilePack

/-- A maximal block: its byte and how often it stands there. -/
structure Block where
  value : UInt8
  length : Nat
  deriving DecidableEq

namespace Block

/-- Put one more byte in front. -/
def cons (byte : UInt8) : List Block → List Block
  | [] => [⟨byte, 1⟩]
  | block :: rest =>
    if block.value = byte then ⟨byte, block.length + 1⟩ :: rest else ⟨byte, 1⟩ :: block :: rest

/-- Two bytes for each full run, and for what is left two more, or one for a single byte. -/
def packedSize (block : Block) : Nat := 2 * (block.length / 255) + min (block.length % 255) 2

def expand (block : Block) : List UInt8 := List.replicate block.length block.value

@[simp] theorem length_expand (block : Block) : block.expand.length = block.length := by
  simp [expand]

end Block

def blocks (data : List UInt8) : List Block := data.foldr Block.cons []

/-- How long the last block is, zero for no bytes. -/
def lastBlockLength (data : List UInt8) : Nat := ((blocks data).getLast?.map Block.length).getD 0

@[simp] theorem blocks_nil : blocks [] = [] := rfl

@[simp] theorem blocks_cons (byte : UInt8) (data : List UInt8) :
    blocks (byte :: data) = Block.cons byte (blocks data) := rfl

private theorem expand_cons (byte : UInt8) (rest : List Block) :
    (Block.cons byte rest).flatMap Block.expand = byte :: rest.flatMap Block.expand := by
  cases rest with
  | nil => rfl
  | cons block rest =>
    by_cases same : block.value = byte
    · subst byte
      simp [Block.cons, Block.expand, List.replicate_succ]
    · simp [Block.cons, same, Block.expand]

theorem expand_blocks (data : List UInt8) : (blocks data).flatMap Block.expand = data := by
  induction data with
  | nil => rfl
  | cons byte data ih => rw [blocks_cons, expand_cons, ih]

end TilePack
