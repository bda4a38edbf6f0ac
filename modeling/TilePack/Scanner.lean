import TilePack.Record

/-! A scanner cuts bytes into records one at a time. Its whole state is the run
being counted and the bytes not read yet, so it can be kept and copied freely. -/
namespace TilePack

/-- A run whose end has not been seen. -/
structure OpenRun where
  value : UInt8
  count : UInt8
  deriving DecidableEq

namespace OpenRun

def start (byte : UInt8) : OpenRun := ⟨byte, 1⟩

/-- The next byte belongs to this run: same value, and the count has room. -/
def accepts (run : OpenRun) (byte : UInt8) : Bool := run.value == byte && run.count < maxRun

def extend (run : OpenRun) : OpenRun := { run with count := run.count + 1 }

/-- A run of one is written as the byte itself. -/
def close (run : OpenRun) : Record :=
  if run.count = 1 then .literal run.value else .run run.value run.count

def describe (run : OpenRun) : String :=
  s!"Run \x7b value: {run.value.toNat}, count: {run.count.toNat} \x7d"

end OpenRun

structure Scanner where
  unread : List UInt8
  current : Option OpenRun
  deriving DecidableEq

namespace Scanner

def ofBytes (data : List UInt8) : Scanner := ⟨data, none⟩

/-- Read on until a byte closes the run. That byte opens the next run; at the end
of the input nothing stays open. -/
def advance (run : OpenRun) : List UInt8 → Record × Scanner
  | [] => (run.close, ⟨[], none⟩)
  | byte :: rest =>
    if run.accepts byte then advance run.extend rest
    else (run.close, ⟨rest, some (.start byte)⟩)

/-- The next record with the scanner after it, or nothing at the end. -/
def next? (scanner : Scanner) : Option (Record × Scanner) :=
  match scanner.current, scanner.unread with
  | some run, unread => some (advance run unread)
  | none, byte :: rest => some (advance (.start byte) rest)
  | none, [] => none

/-- Unread bytes, and one more for an open run. -/
def pending (scanner : Scanner) : Nat :=
  scanner.unread.length + if scanner.current.isSome then 1 else 0

/-- Bounds on how many records are left. -/
def bounds (scanner : Scanner) : Nat × Nat := (min scanner.pending 1, scanner.pending)

private def takeInto (found : Array Record) : Nat → Scanner → Array Record × Scanner
  | 0, scanner => (found, scanner)
  | limit + 1, scanner =>
    match scanner.next? with
    | none => (found, scanner)
    | some (record, rest) => takeInto (found.push record) limit rest

/-- Up to `limit` records, and the scanner after them. -/
def take (limit : Nat) (scanner : Scanner) : List Record × Scanner :=
  let (found, rest) := takeInto #[] limit scanner
  (found.toList, rest)

/-- Skip records, then give the next one. -/
def nth? : Nat → Scanner → Option Record × Scanner
  | skip, scanner =>
    match scanner.next? with
    | none => (none, scanner)
    | some (record, rest) =>
      match skip with
      | 0 => (some record, rest)
      | skip + 1 => nth? skip rest

/-- All records that are left, and the exhausted scanner. No record covers less
than one pending byte, so `pending` is a sufficient limit. -/
def drain (scanner : Scanner) : List Record × Scanner := scanner.take scanner.pending

def toList (scanner : Scanner) : List Record := scanner.drain.1

def describe (scanner : Scanner) : String :=
  let unread := ", ".intercalate (scanner.unread.map fun byte => toString byte.toNat)
  let current := match scanner.current with
    | none => "None"
    | some run => s!"Some({run.describe})"
  s!"Records \x7b bytes: Iter([{unread}]), run: {current} \x7d"

private theorem takeInto_eq (limit : Nat) (scanner : Scanner) (found : Array Record) :
    takeInto found limit scanner =
      (found ++ (takeInto #[] limit scanner).1, (takeInto #[] limit scanner).2) := by
  induction limit generalizing scanner found with
  | zero => simp [takeInto]
  | succ limit ih =>
    simp only [takeInto]
    split
    · simp
    · rename_i record rest _
      rw [ih rest (found.push record), ih rest (#[].push record)]
      simp

@[simp] theorem take_zero (scanner : Scanner) : scanner.take 0 = ([], scanner) := rfl

theorem take_succ (limit : Nat) (scanner : Scanner) :
    scanner.take (limit + 1) =
      match scanner.next? with
      | none => ([], scanner)
      | some (record, rest) => (record :: (rest.take limit).1, (rest.take limit).2) := by
  simp only [take, takeInto]
  split
  · rfl
  · rename_i record rest _
    rw [takeInto_eq limit rest (#[].push record)]
    simp

theorem pending_advance (run : OpenRun) (data : List UInt8) :
    (advance run data).2.pending ≤ data.length := by
  induction data generalizing run with
  | nil => simp [advance, pending]
  | cons byte rest ih =>
    simp only [advance]
    split
    · exact Nat.le_trans (ih run.extend) (by simp)
    · simp [pending]

/-- Every record takes something off what is pending. -/
theorem pending_next? {scanner rest : Scanner} {record : Record}
    (found : scanner.next? = some (record, rest)) : rest.pending < scanner.pending := by
  obtain ⟨unread, current⟩ := scanner
  cases current with
  | some run =>
    simp only [next?, Option.some.injEq] at found
    have bound := pending_advance run unread
    rw [found] at bound
    exact Nat.lt_succ_of_le bound
  | none =>
    cases unread with
    | nil => simp [next?] at found
    | cons byte data =>
      simp only [next?, Option.some.injEq] at found
      have bound := pending_advance (.start byte) data
      rw [found] at bound
      simpa [pending] using Nat.lt_succ_of_le bound

private theorem take_of_pending_le {first second : Nat} (scanner : Scanner)
    (enough : scanner.pending ≤ first) (also : scanner.pending ≤ second) :
    scanner.take first = scanner.take second := by
  induction first generalizing scanner second with
  | zero =>
    cases second with
    | zero => rfl
    | succ second =>
      rw [take_succ, take_zero]
      split
      · rfl
      · rename_i found
        have less := pending_next? found
        omega
  | succ first ih =>
    cases second with
    | zero =>
      rw [take_succ, take_zero]
      split
      · rfl
      · rename_i found
        have less := pending_next? found
        omega
    | succ second =>
      rw [take_succ, take_succ]
      split
      · rfl
      · rename_i record rest found
        have less := pending_next? found
        have same : rest.take first = rest.take second := ih rest (by omega) (by omega)
        rw [same]

/-- A scanner's records are its next one and those of the scanner after it. -/
theorem drain_eq (scanner : Scanner) :
    scanner.drain =
      match scanner.next? with
      | none => ([], scanner)
      | some (record, rest) => (record :: rest.drain.1, rest.drain.2) := by
  have more : scanner.drain = scanner.take (scanner.pending + 1) :=
    take_of_pending_le scanner (Nat.le_refl _) (Nat.le_succ _)
  rw [more, take_succ]
  split
  · rfl
  · rename_i record rest found
    have less := pending_next? found
    rw [drain, take_of_pending_le rest (by omega : rest.pending ≤ scanner.pending) (Nat.le_refl _)]

theorem toList_of_next?_none {scanner : Scanner} (ended : scanner.next? = none) :
    scanner.toList = [] := by
  rw [toList, drain_eq, ended]

theorem toList_of_next?_some {scanner rest : Scanner} {record : Record}
    (found : scanner.next? = some (record, rest)) : scanner.toList = record :: rest.toList := by
  rw [toList, drain_eq, found]
  rfl

end Scanner

end TilePack
