import TilePack.Encoding

/-! A bank of scanners that grows by copying its members. Every step addresses one
member and leaves the others alone. -/
namespace TilePack.Scanner

/-- What can be asked of one scanner. -/
inductive Query where
  | next
  | nth (skip : Nat)
  | take (limit : Nat)
  | count
  | wireSize
  | clone
  | describe

/-- What a query answers. A copy answers nothing of its own. -/
inductive Reply where
  | record (found : Option Record)
  | records (found : List Record)
  | amount (value : Nat)
  | text (value : String)
  | silent
  deriving DecidableEq

/-- A query at the member with this index. -/
structure Step where
  target : Nat
  query : Query

abbrev Bank := List Scanner

/-- The reply, the scanner after the query, and the copies it made. -/
def answer (scanner : Scanner) : Query → Reply × Scanner × List Scanner
  | .next =>
    match scanner.next? with
    | none => (.record none, scanner, [])
    | some (record, rest) => (.record (some record), rest, [])
  | .nth skip => let (found, rest) := scanner.nth? skip; (.record found, rest, [])
  | .take limit => let (found, rest) := scanner.take limit; (.records found, rest, [])
  | .count => let (found, rest) := scanner.drain; (.amount found.length, rest, [])
  | .wireSize => let (found, rest) := scanner.drain; (.amount (TilePack.wireSize found), rest, [])
  | .clone => (.silent, scanner, [scanner])
  | .describe => (.text scanner.describe, scanner, [])

/-- A reply with the bounds of the addressed scanner after the step. -/
structure Report where
  reply : Reply
  bounds : Nat × Nat
  deriving DecidableEq

namespace Bank

def ofBytes (data : List UInt8) : Bank := [Scanner.ofBytes data]

/-- One step; an index outside the bank has no answer. -/
def step (bank : Bank) (step : Step) : Option (Report × Bank) := do
  let scanner ← bank[step.target]?
  let (reply, rest, copies) := scanner.answer step.query
  some (⟨reply, rest.bounds⟩, bank.set step.target rest ++ copies)

/-- Run steps in order, one report for each. -/
def run : Bank → List Step → Option (List Report)
  | _, [] => some []
  | bank, first :: rest => do
    let (report, bank) ← bank.step first
    let reports ← run bank rest
    some (report :: reports)

end Bank

/-! The bank of scanners seen from outside: each member is no more than a place in
the list of all records. -/

/-- A place in the list of all records, at most its length. -/
abbrev Cursor := Nat

namespace Cursor

/-- Move on by so many records, and not past the end. -/
def skip (all : List Record) (cursor : Cursor) (amount : Nat) : Cursor :=
  min (cursor + amount) all.length

/-- The reply to a query that only records can answer, the cursor after it, and the
copies it made. -/
def answer (all : List Record) (cursor : Cursor) : Query → Option (Reply × Cursor × List Cursor)
  | .next => some (.record all[cursor]?, skip all cursor 1, [])
  | .nth amount => some (.record all[cursor + amount]?, skip all cursor (amount + 1), [])
  | .take limit => some (.records ((all.drop cursor).take limit), skip all cursor limit, [])
  | .count => some (.amount (all.length - cursor), all.length, [])
  | .wireSize => some (.amount (TilePack.wireSize (all.drop cursor)), all.length, [])
  | .clone => some (.silent, cursor, [cursor])
  | .describe => none

/-- One step on a bank of cursors over the same records. -/
def step (all : List Record) (bank : List Cursor) (step : Step) :
    Option (Reply × List Cursor) := do
  let cursor ← bank[step.target]?
  let (reply, rest, copies) ← answer all cursor step.query
  some (reply, bank.set step.target rest ++ copies)

/-- Run steps in order, one reply for each. -/
def run (all : List Record) : List Cursor → List Step → Option (List Reply)
  | _, [] => some []
  | bank, first :: rest => do
    let (reply, bank) ← step all bank first
    let replies ← run all bank rest
    some (reply :: replies)

end Cursor

end TilePack.Scanner
