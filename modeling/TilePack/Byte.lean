/-! Bytes as the wire format sees them: bit 7 marks the start of a run and the
low seven bits carry the value. -/
namespace TilePack

/-- The bit that marks the first byte of a run. -/
def runFlag : UInt8 := 0x80

/-- The longest run that one record can describe. -/
def maxRun : UInt8 := 0xFF

/-- A flagged byte cannot stand for itself on the wire. -/
def isFlagged (byte : UInt8) : Bool := byte &&& runFlag != 0

/-- The marker that opens a run of `value`. -/
def mark (value : UInt8) : UInt8 := runFlag ||| value

/-- The value that a marker carries. -/
def unmark (marker : UInt8) : UInt8 := marker &&& 0x7F

private theorem byte_cases {motive : UInt8 → Prop}
    (each : ∀ n < 256, motive (UInt8.ofNat n)) (byte : UInt8) : motive byte := by
  simpa using each byte.toNat byte.toNat_lt

theorem isFlagged_iff (byte : UInt8) : isFlagged byte = true ↔ 128 ≤ byte.toNat :=
  byte_cases (motive := fun byte => isFlagged byte = true ↔ 128 ≤ byte.toNat) (by decide +kernel) byte

theorem isFlagged_eq_false_iff (byte : UInt8) : isFlagged byte = false ↔ byte.toNat < 128 := by
  rw [← Bool.not_eq_true, isFlagged_iff, Nat.not_le]

theorem isFlagged_eq_false_iff_lt (byte : UInt8) : isFlagged byte = false ↔ byte < 0x80 := by
  rw [isFlagged_eq_false_iff, UInt8.lt_iff_toNat_lt]
  rfl

theorem plain_iff_lt {data : List UInt8} :
    (∀ byte ∈ data, isFlagged byte = false) ↔ ∀ byte ∈ data, byte < 0x80 :=
  forall_congr' fun byte => imp_congr_right fun _ => isFlagged_eq_false_iff_lt byte

@[simp] theorem isFlagged_mark (value : UInt8) : isFlagged (mark value) = true :=
  byte_cases (motive := fun value => isFlagged (mark value) = true) (by decide +kernel) value

@[simp] theorem isFlagged_unmark (marker : UInt8) : isFlagged (unmark marker) = false :=
  byte_cases (motive := fun marker => isFlagged (unmark marker) = false) (by decide +kernel) marker

@[simp] theorem unmark_mark (value : UInt8) : unmark (mark value) = unmark value :=
  byte_cases (motive := fun value => unmark (mark value) = unmark value) (by decide +kernel) value

theorem toNat_unmark (marker : UInt8) : (unmark marker).toNat = marker.toNat % 128 :=
  byte_cases (motive := fun marker => (unmark marker).toNat = marker.toNat % 128)
    (by decide +kernel) marker

theorem unmark_of_plain (value : UInt8) (plain : isFlagged value = false) : unmark value = value := by
  revert plain
  exact byte_cases (motive := fun value => isFlagged value = false → unmark value = value)
    (by decide +kernel) value

theorem mark_unmark (marker : UInt8) (flagged : isFlagged marker = true) :
    mark (unmark marker) = marker := by
  revert flagged
  exact byte_cases (motive := fun marker => isFlagged marker = true → mark (unmark marker) = marker)
    (by decide +kernel) marker

end TilePack
