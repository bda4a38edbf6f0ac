import TilePack.Packing

/-! Packing with every bounded operation checked: the count of a run is one byte,
sizes and counters are words of 64 bits, and a record is only written if it has a
wire form. A check that fails gives no result. -/
namespace TilePack.Checked

/-- One more than a byte can count is no count. -/
def increment? (count : UInt8) : Option UInt8 :=
  if count = maxRun then none else some (count + 1)

/-- One more than the largest word. -/
def wordLimit : Nat := 18446744073709551616

/-- The sum of two words, if it is a word. -/
def add? (first second : Nat) : Option Nat :=
  if first + second < wordLimit then some (first + second) else none

/-- One byte: it opens a run, is counted, or closes the run before it and opens the next. -/
def read (current : Option OpenRun) (byte : UInt8) : Option (Option Record × OpenRun) :=
  match current with
  | none => some (none, .start byte)
  | some run =>
    if run.accepts byte then (increment? run.count).map fun count => (none, ⟨run.value, count⟩)
    else some (some run.close, .start byte)

/-- Read on until a byte closes a run, or close the last one at the end. -/
def advance (current : Option OpenRun) : List UInt8 → Option (Option Record × Scanner)
  | [] => some (current.map OpenRun.close, ⟨[], none⟩)
  | byte :: rest => do
    match ← read current byte with
    | (none, run) => advance (some run) rest
    | (some record, run) => some (some record, ⟨rest, some run⟩)

/-- The next record, unless the scanner is at its end, and the scanner after it. -/
def next (scanner : Scanner) : Option (Option Record × Scanner) :=
  advance scanner.current scanner.unread

def take : Nat → Scanner → Option (List Record × Scanner)
  | 0, scanner => some ([], scanner)
  | limit + 1, scanner => do
    match ← next scanner with
    | (none, rest) => some ([], rest)
    | (some record, rest) =>
      let (records, rest) ← take limit rest
      some (record :: records, rest)

def records (data : List UInt8) : Option (List Record) := do
  let scanner := Scanner.ofBytes data
  let (records, _) ← take scanner.pending scanner
  some records

def write (buffer : Array UInt8) (record : Record) : Option (Array UInt8) :=
  (record.writeTo buffer).toOption

def encodeOnto (buffer : Array UInt8) (data : List UInt8) : Option (Array UInt8) := do
  (← records data).foldlM write buffer

def encode (data : List UInt8) : Option (List UInt8) := (encodeOnto #[] data).map Array.toList

def encodedLength (data : List UInt8) : Option Nat := do
  (← records data).foldlM (fun total record => add? total record.wireLength) 0

def count (tally : Tally) (record : Record) : Option Tally := do
  let tally ← match record with
    | .literal _ => (add? tally.literals 1).map fun literals => { tally with literals }
    | .run _ _ => (add? tally.runs 1).map fun runs => { tally with runs }
  if record.flagged then (add? tally.flagged 1).map fun flagged => { tally with flagged }
  else some tally

def add (progress : Progress) (record : Record) : Option Progress := do
  let tally ← count progress.tally record
  let offset ← add? progress.offset record.span
  let buffer ← write progress.buffer record
  let firstFlagged :=
    if progress.firstFlagged.isNone && record.flagged then some progress.offset
    else progress.firstFlagged
  some { tally, offset, firstFlagged, buffer }

def pass (data : List UInt8) : Option Progress := do
  (← records data).foldlM add { tally := { inputSize := data.length } }

def pack (settings : Settings) (data : List UInt8) : Option (Logged (Except Failure Packed)) :=
  match settings.policy.refusal? data with
  | some failure => some ⟨.error failure, []⟩
  | none => do
    let progress ← pass data
    let packed := progress.finish
    some ⟨.ok packed, progress.warnings settings.policy ++ [.packed packed.tally]⟩

end TilePack.Checked
