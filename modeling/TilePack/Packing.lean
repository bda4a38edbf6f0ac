import TilePack.Decimal
import TilePack.Encoding
import TilePack.Fault

/-! Packing a buffer under a policy: one pass over the records fills the output,
counts, and finds the first record that will not unpack. What the job notes on its way
is kept in order, with the lines it is logged as. -/
namespace TilePack

/-- Sizes and record counts of one job. -/
structure Tally where
  inputSize : Nat := 0
  encodedSize : Nat := 0
  literals : Nat := 0
  runs : Nat := 0
  flagged : Nat := 0
  deriving DecidableEq

namespace Tally

/-- Count one record. -/
def count (tally : Tally) (record : Record) : Tally :=
  let tally := match record with
    | .literal _ => { tally with literals := tally.literals + 1 }
    | .run _ _ => { tally with runs := tally.runs + 1 }
  if record.flagged then { tally with flagged := tally.flagged + 1 } else tally

/-- Input size over packed size, zero for an empty result. Each size is rounded to a
binary number before the division rounds again. -/
def ratio (tally : Tally) : Decimal.Binary :=
  if tally.encodedSize = 0 then .zero
  else (Decimal.Binary.ofNat tally.inputSize).div (.ofNat tally.encodedSize)

/-- Descriptions round a half up. -/
def describedRatio (tally : Tally) : String := tally.ratio.shortestText .up

/-- Reports for machines round a half to even. -/
def reportedRatio (tally : Tally) : String := tally.ratio.shortestText .toEven

/-- Reports for people have two places and round a half to even. -/
def shownRatio (tally : Tally) : String := (tally.ratio.round .toEven 2).render

def describe (tally : Tally) : String :=
  s!"EncodeStats \x7b original_size: {tally.inputSize}, encoded_size: {tally.encodedSize}, " ++
  s!"ratio: {tally.describedRatio}, literal_records: {tally.literals}, " ++
  s!"run_records: {tally.runs}, high_bit_records: {tally.flagged} \x7d"

end Tally

/-- What a job notes while it runs. -/
inductive Event where
  | opening (input output : String)
  | flagged (records first : Nat)
  | packed (tally : Tally)
  deriving DecidableEq

namespace Event

def level : Event → String
  | .opening _ _ => "INFO"
  | .flagged _ _ => "WARN"
  | .packed _ => "DEBUG"

/-- The line of an event; only a packed buffer tells the time it took. -/
def message (elapsed : String) : Event → String
  | .opening input output => s!"encoding {input} to {output}"
  | .flagged records first =>
    s!"{records} record(s) carry a value with bit 7 set (first at input offset {first}); " ++
    "output will not unpack losslessly"
  | .packed tally =>
    s!"encoded {tally.inputSize} -> {tally.encodedSize} bytes ({tally.literals} literal, " ++
    s!"{tally.runs} run records) in {elapsed}"

def render (elapsed : String) (event : Event) : String := s!"{event.level} {event.message elapsed}"

end Event

/-- A value with the events noted on the way to it. -/
structure Logged (α : Type) where
  value : α
  events : List Event

/-- A packed buffer with its sizes and counts. -/
structure Packed where
  bytes : List UInt8
  tally : Tally
  deriving DecidableEq

/-- The state between two records of the pass. -/
structure Progress where
  tally : Tally
  offset : Nat := 0
  firstFlagged : Option Nat := none
  buffer : Array UInt8 := #[]

namespace Progress

def add (progress : Progress) (record : Record) : Progress where
  tally := progress.tally.count record
  offset := progress.offset + record.span
  firstFlagged :=
    if progress.firstFlagged.isNone && record.flagged then some progress.offset
    else progress.firstFlagged
  buffer := record.pushOnto progress.buffer

/-- The pass over a whole input. -/
def ofBytes (data : List UInt8) : Progress :=
  (records data).foldl add { tally := { inputSize := data.length } }

def finish (progress : Progress) : Packed where
  bytes := progress.buffer.toList
  tally := { progress.tally with encodedSize := progress.buffer.size }

/-- Only the warning policy notes flagged records. -/
def warnings (progress : Progress) (policy : Policy) : List Event :=
  match policy, progress.firstFlagged with
  | .warn, some first => [.flagged progress.tally.flagged first]
  | _, _ => []

end Progress

/-- The first byte with bit 7 set, and where it stands. -/
def firstFlaggedByte? (data : List UInt8) : Option (UInt8 × Nat) :=
  data.zipIdx.find? fun (byte, _) => isFlagged byte

/-- What the policy refuses, before anything is packed or noted. -/
def Policy.refusal? (policy : Policy) (data : List UInt8) : Option Failure :=
  match policy with
  | .reject => (firstFlaggedByte? data).map fun (value, offset) => .flaggedByte offset value
  | .allow | .warn => none

def pack (settings : Settings) (data : List UInt8) : Logged (Except Failure Packed) :=
  match settings.policy.refusal? data with
  | some failure => ⟨.error failure, []⟩
  | none =>
    let progress := Progress.ofBytes data
    let packed := progress.finish
    ⟨.ok packed, progress.warnings settings.policy ++ [.packed packed.tally]⟩

/-- The same with settings by name; names that cannot be read start nothing. -/
def packNamed (policy report : Option String) (data : List UInt8) : Logged (Except Failure Packed) :=
  match Settings.ofNames policy report with
  | .error error => ⟨.error (.ofSettings error), []⟩
  | .ok settings => pack settings data

end TilePack
