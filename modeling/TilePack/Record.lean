import TilePack.Byte

/-! Records, the units of a packed stream: one byte on its own, or a run of equal
bytes. A record has a wire form and stands for a stretch of the input. -/
namespace TilePack

/-- A record covers one stretch of equal input bytes. The scanner only yields
runs of two or more; a shorter run has no wire form. -/
inductive Record where
  | literal (value : UInt8)
  | run (value count : UInt8)
  deriving DecidableEq

/-- Writing refuses a run that is too short to be one. -/
structure ShortRun where
  count : UInt8
  deriving DecidableEq

def ShortRun.message (refusal : ShortRun) : String :=
  s!"run record with count {refusal.count.toNat}"

namespace Record

def value : Record → UInt8
  | .literal value => value
  | .run value _ => value

/-- How many input bytes the record stands for. -/
def span : Record → Nat
  | .literal _ => 1
  | .run _ count => count.toNat

/-- How many bytes the record takes on the wire. -/
def wireLength : Record → Nat
  | .literal _ => 1
  | .run _ _ => 2

def isLiteral : Record → Bool
  | .literal _ => true
  | .run _ _ => false

/-- The value has bit 7 set, so unpacking cannot give it back. -/
def flagged (record : Record) : Bool := isFlagged record.value

/-- The input bytes the record stands for. -/
def expand (record : Record) : List UInt8 := List.replicate record.span record.value

/-- A run has room for two or more bytes. -/
def WellFormed : Record → Prop
  | .literal _ => True
  | .run _ count => 2 ≤ count.toNat

instance : DecidablePred WellFormed
  | .literal _ => .isTrue trivial
  | .run _ count => inferInstanceAs (Decidable (2 ≤ count.toNat))

def wire : Record → List UInt8
  | .literal value => [value]
  | .run value count => [mark value, count]

/-- Append the wire form to a growing buffer. -/
def pushOnto (buffer : Array UInt8) : Record → Array UInt8
  | .literal value => buffer.push value
  | .run value count => (buffer.push (mark value)).push count

/-- Append the wire form, refusing short runs before anything is appended. -/
def writeTo (record : Record) (buffer : Array UInt8) : Except ShortRun (Array UInt8) :=
  match record with
  | .literal value => .ok (buffer.push value)
  | .run value count =>
    if count < 2 then .error ⟨count⟩ else .ok ((buffer.push (mark value)).push count)

/-- Write the wire form byte by byte into the buffer at hand. Whatever stands in it when
the record is refused stays there. -/
def emit : Record → EStateM ShortRun (Array UInt8) Unit
  | .literal value => modify (·.push value)
  | .run value count => do
    if count < 2 then throw ⟨count⟩
    modify (·.push (mark value))
    modify (·.push count)

def describe : Record → String
  | .literal value => s!"Literal({value.toNat})"
  | .run value count => s!"Run \x7b value: {value.toNat}, count: {count.toNat} \x7d"

@[simp] theorem isLiteral_literal (value : UInt8) : (literal value).isLiteral = true := rfl

@[simp] theorem isLiteral_run (value count : UInt8) : (run value count).isLiteral = false := rfl

@[simp] theorem length_wire (record : Record) : record.wire.length = record.wireLength := by
  cases record <;> rfl

@[simp] theorem length_expand (record : Record) : record.expand.length = record.span := by
  simp [expand]

@[simp] theorem toList_pushOnto (buffer : Array UInt8) (record : Record) :
    (record.pushOnto buffer).toList = buffer.toList ++ record.wire := by
  cases record <;> simp [pushOnto, wire]

theorem writeTo_eq (record : Record) (buffer : Array UInt8) (valid : record.WellFormed) :
    record.writeTo buffer = .ok (record.pushOnto buffer) := by
  cases record with
  | literal value => rfl
  | run value count =>
    have long : ¬ count < 2 := by
      simp only [WellFormed] at valid
      simp only [UInt8.lt_iff_toNat_lt]
      exact Nat.not_lt.mpr valid
    simp [writeTo, pushOnto, long]

/-- Nothing is appended before a record is refused. -/
theorem run_emit (record : Record) (buffer : Array UInt8) :
    record.emit.run buffer =
      match record.writeTo buffer with
      | .ok grown => .ok () grown
      | .error cause => .error cause buffer := by
  cases record with
  | literal value => rfl
  | run value count => by_cases short : count < 2 <;> simp [emit, writeTo, short]

theorem writeTo_eq_error_iff {record : Record} {cause : ShortRun} (buffer : Array UInt8) :
    record.writeTo buffer = .error cause ↔
      ∃ value, record = .run value cause.count ∧ cause.count < 2 := by
  obtain ⟨short⟩ := cause
  cases record with
  | literal value => simp [writeTo]
  | run value count =>
    by_cases few : count < 2
    · simp only [writeTo, few, ↓reduceIte, Except.error.injEq, ShortRun.mk.injEq, run.injEq]
      constructor
      · rintro rfl
        exact ⟨value, ⟨rfl, rfl⟩, few⟩
      · rintro ⟨other, ⟨-, same⟩, -⟩
        exact same
    · simp only [writeTo, few, ↓reduceIte, reduceCtorEq, run.injEq, false_iff]
      rintro ⟨other, ⟨-, rfl⟩, short⟩
      exact few short

end Record

end TilePack
