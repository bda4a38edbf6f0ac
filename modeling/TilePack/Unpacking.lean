import TilePack.Encoding

/-! The unpacker that packed streams are made for, and the streams that packing
produces. Unpacking knows nothing of how a stream was cut into records. -/
namespace TilePack

/-- A plain byte is copied once. A marker gives as many copies of its value as the
byte after it says, and fails as the last byte of a stream. -/
def unpack : List UInt8 → Option (List UInt8)
  | [] => some []
  | byte :: rest =>
    if isFlagged byte then
      match rest with
      | [] => none
      | count :: rest => (unpack rest).map (List.replicate count.toNat (unmark byte) ++ ·)
    else (unpack rest).map (byte :: ·)

/-- The records that a stream spells, whatever their counts. -/
def spelled? : List UInt8 → Option (List Record)
  | [] => some []
  | byte :: rest =>
    if isFlagged byte then
      match rest with
      | [] => none
      | count :: rest => (spelled? rest).map (.run (unmark byte) count :: ·)
    else (spelled? rest).map (.literal byte :: ·)

/-- Equal neighbours only arise where a run was full. -/
def Record.MayPrecede (first second : Record) : Prop :=
  first.value = second.value → first = .run first.value maxRun

instance (first second : Record) : Decidable (first.MayPrecede second) :=
  inferInstanceAs (Decidable (_ → _))

/-- Every record may stand before the one that follows it. -/
def Separated : List Record → Prop
  | [] => True
  | [_] => True
  | first :: second :: rest => first.MayPrecede second ∧ Separated (second :: rest)

/-- A list of records as packing cuts them. -/
structure Maximal (records : List Record) : Prop where
  wellFormed : ∀ record ∈ records, record.WellFormed
  separated : Separated records

/-- A stream that spells records as packing cuts them. -/
def Canonical (stream : List UInt8) : Prop :=
  ∃ records, spelled? stream = some records ∧ Maximal records

/-- The bytes that a list of records stands for. -/
def expandAll (records : List Record) : List UInt8 := records.flatMap Record.expand

/-- Records that cut `data` into maximal stretches. -/
structure Segments (data : List UInt8) (records : List Record) : Prop where
  covers : expandAll records = data
  maximal : Maximal records

theorem unpack_cons_of_plain {byte : UInt8} (plain : isFlagged byte = false) (rest : List UInt8) :
    unpack (byte :: rest) = (unpack rest).map (byte :: ·) := by
  cases rest <;> simp [unpack, plain]

theorem spelled?_cons_of_plain {byte : UInt8} (plain : isFlagged byte = false)
    (rest : List UInt8) :
    spelled? (byte :: rest) = (spelled? rest).map (.literal byte :: ·) := by
  cases rest <;> simp [spelled?, plain]

@[simp] theorem expandAll_nil : expandAll [] = [] := rfl

@[simp] theorem expandAll_cons (record : Record) (records : List Record) :
    expandAll (record :: records) = record.expand ++ expandAll records := rfl

@[simp] theorem expandAll_append (first second : List Record) :
    expandAll (first ++ second) = expandAll first ++ expandAll second :=
  List.flatMap_append

end TilePack
