import TilePack.Unpacking

/-! How a byte string falls into records. A record takes all it can off the front,
so there is at most one way to cut a byte string. -/
namespace TilePack

namespace Record

/-- A record may stand before bytes that go on with its value only if it is full. -/
def MayLead (record : Record) (rest : List UInt8) : Prop :=
  rest.head? = some record.value → record = .run record.value maxRun

theorem WellFormed.span_pos {record : Record} (valid : record.WellFormed) : 0 < record.span := by
  cases record with
  | literal value => exact Nat.one_pos
  | run value count => exact Nat.lt_of_lt_of_le Nat.two_pos valid

theorem span_le (record : Record) : record.span ≤ 255 := by
  cases record with
  | literal value => simp [span]
  | run value count => exact Nat.le_of_lt_succ count.toNat_lt

theorem WellFormed.ext {first second : Record} (valid : first.WellFormed) (also : second.WellFormed)
    (value : first.value = second.value) (span : first.span = second.span) : first = second := by
  cases first <;> cases second <;> simp only [Record.value, Record.span, WellFormed] at *
  case literal.literal => rw [value]
  case literal.run => omega
  case run.literal => omega
  case run.run => rw [value, UInt8.toNat_inj.mp span]

theorem WellFormed.head?_expand_append {record : Record} (valid : record.WellFormed)
    (rest : List UInt8) : (record.expand ++ rest).head? = some record.value := by
  obtain ⟨span, same⟩ := Nat.exists_eq_succ_of_ne_zero (Nat.ne_of_gt valid.span_pos)
  simp [expand, same, List.replicate_succ]

/-- A record that ends early leaves its own value in front, so it was full and the
other one cannot be longer. -/
private theorem span_le_of_expand_append {first second : Record} {rest others : List UInt8}
    (leads : first.MayLead rest) (value : first.value = second.value)
    (same : first.expand ++ rest = second.expand ++ others) : second.span ≤ first.span := by
  apply Nat.le_of_not_lt
  intro shorter
  obtain ⟨extra, split⟩ := Nat.exists_eq_add_of_lt shorter
  have joined : first.expand ++ rest =
      first.expand ++ (List.replicate (extra + 1) second.value ++ others) := by
    rw [same, ← List.append_assoc, expand, expand, value, List.replicate_append_replicate]
    rw [split, Nat.add_assoc]
  have tail := List.append_cancel_left joined
  have full : first = .run first.value maxRun := leads (by simp [tail, value, List.replicate_succ])
  have bound := second.span_le
  rw [full] at shorter
  exact Nat.not_lt.mpr bound shorter

/-- Bytes begin with one record only, if it takes all it can. -/
theorem eq_of_expand_append {first second : Record} {rest others : List UInt8}
    (valid : first.WellFormed) (also : second.WellFormed)
    (leads : first.MayLead rest) (leadsToo : second.MayLead others)
    (same : first.expand ++ rest = second.expand ++ others) : first = second ∧ rest = others := by
  have value : first.value = second.value := by
    apply Option.some.inj
    rw [← valid.head?_expand_append rest, same, also.head?_expand_append]
  have span : first.span = second.span := Nat.le_antisymm
    (span_le_of_expand_append leadsToo value.symm same.symm)
    (span_le_of_expand_append leads value same)
  have identical := valid.ext also value span
  subst second
  exact ⟨rfl, List.append_cancel_left same⟩

end Record

@[simp] theorem segments_nil_iff {data : List UInt8} : Segments data [] ↔ data = [] := by
  constructor
  · intro cut
    exact cut.covers.symm
  · intro empty
    exact ⟨empty.symm, by simp, trivial⟩

theorem Segments.head? {data : List UInt8} {record : Record} {rest : List Record}
    (cut : Segments data (record :: rest)) : data.head? = some record.value := by
  have valid := cut.maximal.wellFormed record (by simp)
  rw [← cut.covers]
  exact valid.head?_expand_append (expandAll rest)

theorem Segments.tail {data : List UInt8} {record : Record} {rest : List Record}
    (cut : Segments data (record :: rest)) : Segments (expandAll rest) rest := by
  refine ⟨rfl, ?_, ?_⟩
  · intro other member
    exact cut.maximal.wellFormed other (by simp [member])
  · cases rest with
    | nil => trivial
    | cons next rest => exact cut.maximal.separated.2

/-- Whether a record may stand before bytes shows in the first record they are cut into. -/
theorem Segments.mayLead_iff {data : List UInt8} {pieces : List Record}
    (cut : Segments data pieces) (record : Record) :
    record.MayLead data ↔ ∀ next ∈ pieces.head?, record.MayPrecede next := by
  cases pieces with
  | nil => simp [segments_nil_iff.mp cut, Record.MayLead]
  | cons next rest => simp [Record.MayLead, Record.MayPrecede, cut.head?, eq_comm]

theorem Segments.mayLead {data : List UInt8} {record : Record} {rest : List Record}
    (cut : Segments data (record :: rest)) : record.MayLead (expandAll rest) := by
  rw [cut.tail.mayLead_iff]
  intro next leads
  cases rest with
  | nil => cases leads
  | cons head rest =>
    obtain rfl : head = next := Option.some.inj leads
    exact cut.maximal.separated.1

theorem Segments.cons {tail : List UInt8} {record : Record} {rest : List Record}
    (later : Segments tail rest) (valid : record.WellFormed) (leads : record.MayLead tail) :
    Segments (record.expand ++ tail) (record :: rest) := by
  refine ⟨?_, ?_, ?_⟩
  · rw [expandAll_cons, later.covers]
  · exact List.forall_mem_cons.mpr ⟨valid, later.maximal.wellFormed⟩
  · cases rest with
    | nil => trivial
    | cons next rest =>
      exact ⟨(later.mayLead_iff record).mp leads next rfl, later.maximal.separated⟩

/-- Two segmentations of the same bytes agree record by record. -/
theorem Segments.unique {data : List UInt8} {first second : List Record}
    (cut : Segments data first) (other : Segments data second) : first = second := by
  induction first generalizing data second with
  | nil =>
    have empty := segments_nil_iff.mp cut
    cases second with
    | nil => rfl
    | cons record rest =>
      have head := other.head?
      simp [empty] at head
  | cons record rest ih =>
    cases second with
    | nil =>
      have head := cut.head?
      simp [segments_nil_iff.mp other] at head
    | cons another others =>
      have valid := cut.maximal.wellFormed record (by simp)
      have also := other.maximal.wellFormed another (by simp)
      obtain ⟨identical, tails⟩ := Record.eq_of_expand_append valid also cut.mayLead other.mayLead
        (cut.covers.trans other.covers.symm)
      have later : Segments (expandAll rest) others := by
        rw [tails]
        exact other.tail
      rw [identical, ih cut.tail later]

end TilePack
