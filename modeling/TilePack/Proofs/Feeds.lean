import TilePack.Stream

/-! Feeds, told by what they deliver. However a feed cuts its bytes into chunks and
wherever it is interrupted, a job depends on the bytes alone. -/
namespace TilePack

namespace Chunk

/-- The bytes of a chunk; a fault brings none. -/
def data : Chunk → List UInt8
  | .bytes data => data
  | .fault _ => []

/-- An empty chunk ends the input. -/
def isEnd : Chunk → Bool
  | .bytes data => data.isEmpty
  | .fault _ => false

/-- An interruption does not make a read fail. -/
def fails : Chunk → Bool
  | .bytes _ => false
  | .fault cause => !cause.isInterrupted

end Chunk

namespace Feed

/-- The chunks before the end of the input. -/
def beforeEnd (feed : Feed) : List Chunk := feed.takeWhile fun chunk => !chunk.isEnd

/-- All bytes before the end of the input, in order. -/
def delivered (feed : Feed) : List UInt8 := feed.beforeEnd.flatMap Chunk.data

/-- Nothing fails before the end of the input. -/
def Steady (feed : Feed) : Prop := ∀ chunk ∈ feed.beforeEnd, chunk.fails = false

/-- The first failure before the end of the input. -/
def Breaks (feed : Feed) (fault : Fault) : Prop :=
  feed.beforeEnd.find? Chunk.fails = some (.fault fault)

instance (feed : Feed) : Decidable feed.Steady :=
  inferInstanceAs (Decidable (∀ chunk ∈ feed.beforeEnd, chunk.fails = false))

variable {chunk : Chunk} {feed rest : Feed} {data : List UInt8}

theorem beforeEnd_of_isEnd (ends : chunk.isEnd = true) (rest : Feed) :
    beforeEnd (chunk :: rest) = [] := by
  simp [beforeEnd, ends]

theorem beforeEnd_of_not_isEnd (goesOn : chunk.isEnd = false) (rest : Feed) :
    beforeEnd (chunk :: rest) = chunk :: rest.beforeEnd := by
  simp [beforeEnd, goesOn]

theorem delivered_cons (goesOn : chunk.isEnd = false) (rest : Feed) :
    delivered (chunk :: rest) = chunk.data ++ rest.delivered := by
  rw [delivered, beforeEnd_of_not_isEnd goesOn, List.flatMap_cons]
  rfl

theorem steady_cons (goesOn : chunk.isEnd = false) (rest : Feed) :
    Steady (chunk :: rest) ↔ chunk.fails = false ∧ rest.Steady := by
  rw [Steady, beforeEnd_of_not_isEnd goesOn, List.forall_mem_cons]
  rfl

/-- Reading to the end succeeds on steady feeds, with what they deliver. -/
theorem readAll_eq_ok_iff : feed.readAll = .ok data ↔ feed.Steady ∧ feed.delivered = data := by
  fun_induction readAll feed generalizing data with
  | case1 => simp [Steady, delivered, beforeEnd]
  | case2 rest =>
    have ends : (Chunk.bytes []).isEnd = true := rfl
    simp [Steady, delivered, beforeEnd_of_isEnd ends]
  | case3 first rest filled ih =>
    have goesOn : (Chunk.bytes first).isEnd = false := by simpa [Chunk.isEnd] using filled
    rw [steady_cons goesOn, delivered_cons goesOn]
    constructor
    · intro read
      cases later : readAll rest with
      | error fault =>
        rw [later] at read
        cases read
      | ok more =>
        obtain ⟨steady, rfl⟩ := ih.mp later
        rw [later] at read
        exact ⟨⟨rfl, steady⟩, Except.ok.inj read⟩
    · rintro ⟨⟨-, steady⟩, rfl⟩
      rw [ih.mpr ⟨steady, rfl⟩]
      rfl
  | case4 fault rest interrupted ih =>
    have goesOn : (Chunk.fault fault).isEnd = false := rfl
    rw [steady_cons goesOn, delivered_cons goesOn, ih]
    simp [Chunk.fails, Chunk.data, interrupted]
  | case5 fault rest lasting =>
    have goesOn : (Chunk.fault fault).isEnd = false := rfl
    rw [steady_cons goesOn]
    simp [Chunk.fails, lasting]

theorem breaks_cons (goesOn : chunk.isEnd = false) (passes : chunk.fails = false) (rest : Feed)
    (fault : Fault) : Breaks (chunk :: rest) fault ↔ rest.Breaks fault := by
  rw [Breaks, beforeEnd_of_not_isEnd goesOn, List.find?_cons_of_neg (by simp [passes])]
  rfl

theorem readAll_eq_error_iff {fault : Fault} :
    feed.readAll = .error fault ↔ feed.Breaks fault := by
  fun_induction readAll feed with
  | case1 => simp [Breaks, beforeEnd]
  | case2 rest =>
    have ends : (Chunk.bytes []).isEnd = true := rfl
    simp [Breaks, beforeEnd_of_isEnd ends]
  | case3 first rest filled ih =>
    have goesOn : (Chunk.bytes first).isEnd = false := by simpa [Chunk.isEnd] using filled
    rw [breaks_cons goesOn rfl, ← ih]
    cases readAll rest <;> simp [Except.map]
  | case4 cause rest interrupted ih =>
    rw [breaks_cons rfl (by simp [Chunk.fails, interrupted]), ih]
  | case5 cause rest lasting =>
    have goesOn : (Chunk.fault cause).isEnd = false := rfl
    rw [Breaks, beforeEnd_of_not_isEnd goesOn,
      List.find?_cons_of_pos (by simp [Chunk.fails, lasting])]
    simp

end Feed

/-- What a job notes depends on its input alone; the sink has no part in it. -/
theorem events_pump (settings : Settings) {feed : Feed} {data : List UInt8}
    (read : feed.readAll = .ok data) (sink : Sink) :
    (pump settings feed sink).1.events = (pack settings data).events := by
  simp only [pump, read]
  split
  · rfl
  · split
    · rfl
    · split <;> rfl

/-- Two feeds that deliver the same bytes make the same job. -/
theorem pump_eq_of_delivered_eq (settings : Settings) {left right : Feed} (leftSteady : left.Steady)
    (rightSteady : right.Steady) (same : left.delivered = right.delivered) (sink other : Sink) :
    pump settings left sink = pump settings right sink ∧
      (pump settings left sink).1.events = (pack settings right.delivered).events ∧
      (pump settings left sink).1.events = (pump settings right other).1.events := by
  have leftRead := Feed.readAll_eq_ok_iff.mpr ⟨leftSteady, same⟩
  have rightRead := Feed.readAll_eq_ok_iff.mpr ⟨rightSteady, rfl⟩
  refine ⟨?_, ?_, ?_⟩
  · rw [pump, pump, leftRead, rightRead]
  · exact events_pump settings leftRead sink
  · rw [events_pump settings leftRead, events_pump settings rightRead]

theorem pump_eq_of_delivered_eq_cut_run :
    let left : Feed := [.bytes [7, 7, 7]]
    let right : Feed := [.fault (.system 4), .bytes [7], .fault (.plain .interrupted),
      .bytes [7, 7], .bytes [], .fault (.plain .brokenPipe)]
    let sink : Sink := { writes := [.upTo 1, .fault (.plain .brokenPipe)] }
    left.Steady ∧ right.Steady ∧ left.delivered = right.delivered ∧
      pump {} left sink = pump {} right sink ∧
      (pump {} left sink).1.events = (pump {} right {}).1.events := by
  intro left right sink
  have leftSteady : left.Steady := by decide
  have rightSteady : right.Steady := by decide
  have same : left.delivered = right.delivered := by decide
  obtain ⟨equal, -, noted⟩ := pump_eq_of_delivered_eq {} leftSteady rightSteady same sink {}
  exact ⟨leftSteady, rightSteady, same, equal, noted⟩

end TilePack
