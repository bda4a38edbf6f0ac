import Mathlib.Data.List.Forall2
import TilePack.Fault

/-! Settings read from names. Whatever lower-casing does to characters of other alphabets,
a text names a setting only by its letters, each in either case. A run of changes leaves in
every setting what was last read for it. -/
namespace TilePack

section Letters

variable {char letter : Char} {lowered : List Char}

theorem toNat_toLower (char : Char) :
    char.toLower.toNat =
      if 65 ≤ char.toNat ∧ char.toNat ≤ 90 then char.toNat + 32 else char.toNat := by
  unfold Char.toLower
  split
  · rename_i upper
    have range : 65 ≤ char.toNat ∧ char.toNat ≤ 90 := upper
    have moved : (char.val + 32).toNat = char.toNat + 32 := by
      rw [UInt32.toNat_add]
      change (char.toNat + 32) % 4294967296 = _
      omega
    rw [if_pos range]
    exact moved
  · rename_i other
    exact (if_neg other).symm

theorem toNat_toUpper (char : Char) :
    char.toUpper.toNat =
      if 97 ≤ char.toNat ∧ char.toNat ≤ 122 then char.toNat - 32 else char.toNat := by
  unfold Char.toUpper
  split
  · rename_i lower
    have range : 97 ≤ char.toNat ∧ char.toNat ≤ 122 := lower
    have moved : (char.val + (65 - 97)).toNat = char.toNat - 32 := by
      rw [UInt32.toNat_add]
      change (char.toNat + 4294967264) % 4294967296 = _
      omega
    rw [if_pos range]
    exact moved
  · rename_i other
    exact (if_neg other).symm

theorem isLower_iff (char : Char) :
    char.isLower = true ↔ 97 ≤ char.toNat ∧ char.toNat ≤ 122 := by
  have tests : char.isLower = (decide (97 ≤ char.val) && decide (char.val ≤ 122)) := rfl
  rw [tests, Bool.and_eq_true, decide_eq_true_iff, decide_eq_true_iff]
  rfl

/-- The letter itself or its capital. -/
def EitherCase (letter char : Char) : Prop := char = letter ∨ char = letter.toUpper

instance (letter char : Char) : Decidable (EitherCase letter char) :=
  inferInstanceAs (Decidable (_ ∨ _))

theorem toLower_eq_iff (small : letter.isLower = true) :
    char.toLower = letter ↔ EitherCase letter char := by
  have range := (isLower_iff letter).mp small
  simp only [EitherCase, ← Char.toNat_inj, toNat_toLower, toNat_toUpper, range, and_self,
    ↓reduceIte]
  split <;> omega

theorem EitherCase.toNat_lt (either : EitherCase letter char) (small : letter.isLower = true) :
    char.toNat < 128 := by
  have range := (isLower_iff letter).mp small
  rcases either with rfl | rfl
  · omega
  · rw [toNat_toUpper, if_pos range]
    omega

/-- What lower-casing makes of a character. It may be more than one character, but outside
ASCII only the Kelvin sign is turned into ASCII altogether. -/
structure LowersTo (char : Char) (lowered : List Char) : Prop where
  ascii : char.toNat < 128 → lowered = [char.toLower]
  kelvin : char.toNat = 0x212A → lowered = ['k']
  other : 128 ≤ char.toNat → char.toNat ≠ 0x212A → ∃ foreign ∈ lowered, 128 ≤ foreign.toNat

/-- A letter that names are made of: a small one, but not the one the Kelvin sign becomes. -/
def NameLetter (letter : Char) : Prop := letter.isLower = true ∧ letter ≠ 'k'

theorem LowersTo.eq_of_letters (lowers : LowersTo char lowered)
    (letters : ∀ letter ∈ lowered, NameLetter letter) : lowered = [char.toLower] := by
  rcases Nat.lt_or_ge char.toNat 128 with ascii | beyond
  · exact lowers.ascii ascii
  · by_cases kelvin : char.toNat = 0x212A
    · have sign := lowers.kelvin kelvin
      exact absurd rfl (letters 'k' (by simp [sign])).2
    · obtain ⟨foreign, member, large⟩ := lowers.other beyond kelvin
      have range := (isLower_iff foreign).mp (letters foreign member).1
      omega

theorem LowersTo.eq_of_eitherCase (lowers : LowersTo char lowered) (small : letter.isLower = true)
    (either : EitherCase letter char) : lowered = [letter] := by
  rw [lowers.ascii (either.toNat_lt small), (toLower_eq_iff small).mpr either]

end Letters

section Names

/-- A lower-casing of texts replaces each character in its place, also with regard to the
characters around it. -/
def LowerCasing (lower : String → List Char) : Prop :=
  ∀ text, ∃ pieces, List.Forall₂ LowersTo text.toList pieces ∧ lower text = pieces.flatten

/-- The letters of a name, each in either case, and nothing before, between or after them. -/
def Spells (name text : String) : Prop := List.Forall₂ EitherCase name.toList text.toList

instance (name text : String) : Decidable (Spells name text) :=
  inferInstanceAs (Decidable (List.Forall₂ EitherCase name.toList text.toList))

/-- A lowered text is a name only if each of its characters became one letter of it. -/
theorem flatten_eq_iff {chars : List Char} {pieces : List (List Char)} {letters : List Char}
    (lowered : List.Forall₂ LowersTo chars pieces)
    (plain : ∀ letter ∈ letters, NameLetter letter) :
    pieces.flatten = letters ↔ List.Forall₂ EitherCase letters chars := by
  induction lowered generalizing letters with
  | nil =>
    constructor
    · rintro rfl
      exact .nil
    · intro spelled
      cases spelled
      rfl
  | @cons char piece chars pieces lowers lowered ih =>
    constructor
    · rintro rfl
      have own : piece = [char.toLower] :=
        lowers.eq_of_letters fun letter member => plain letter (by simp [member])
      subst own
      obtain ⟨first, later⟩ := List.forall_mem_cons.mp plain
      exact .cons ((toLower_eq_iff first.1).mp rfl) ((ih later).mp rfl)
    · intro spelled
      cases spelled with
      | cons either rest =>
        obtain ⟨first, later⟩ := List.forall_mem_cons.mp plain
        rw [List.flatten_cons, lowers.eq_of_eitherCase first.1 either, (ih later).mpr rest]
        rfl

variable {Value : Type} {all : List Value} {name : Value → String} {lower : String → List Char}
  {unknown : String → SettingsError} {value : Value} {text : String}

/-- Names that lower-casing cannot confuse, one for each value. -/
structure Naming (all : List Value) (name : Value → String) : Prop where
  complete : ∀ value, value ∈ all
  distinct : ∀ {first second}, name first = name second → first = second
  letters : ∀ value, ∀ letter ∈ (name value).toList, NameLetter letter

theorem Naming.lower_iff (naming : Naming all name) (fits : LowerCasing lower) :
    (name value).toList = lower text ↔ Spells (name value) text := by
  obtain ⟨pieces, lowered, same⟩ := fits text
  rw [same, eq_comm]
  exact flatten_eq_iff lowered (naming.letters value)

theorem readName_eq_ok_iff (naming : Naming all name) (fits : LowerCasing lower) :
    readName all name unknown lower text = .ok value ↔ Spells (name value) text := by
  rw [readName, ← naming.lower_iff fits]
  cases found : all.find? fun value => (name value).toList == lower text with
  | none =>
    have absent := List.find?_eq_none.mp found value (naming.complete value)
    simpa using absent
  | some first =>
    have named : (name first).toList = lower text := by simpa using List.find?_some found
    constructor
    · intro same
      rw [← Except.ok.inj same]
      exact named
    · intro also
      rw [naming.distinct (String.toList_inj.mp (named.trans also.symm))]

theorem readName_eq_error (naming : Naming all name) (fits : LowerCasing lower)
    (unspelled : ∀ value, ¬ Spells (name value) text) :
    readName all name unknown lower text = .error (unknown text) := by
  have nowhere : (all.find? fun value => (name value).toList == lower text) = none := by
    apply List.find?_eq_none.mpr
    intro value _
    simpa [naming.lower_iff fits] using unspelled value
  rw [readName, nowhere]

theorem readName_eq {other : String → List Char} (naming : Naming all name)
    (fits : LowerCasing lower) (also : LowerCasing other) :
    readName all name unknown lower = readName all name unknown other := by
  funext text
  have alike : (fun value => (name value).toList == lower text) =
      fun value => (name value).toList == other text := by
    funext value
    rw [Bool.eq_iff_iff, beq_iff_eq, beq_iff_eq, naming.lower_iff fits, naming.lower_iff also]
  rw [readName, readName, alike]

/-- Texts are read as the value whose name they spell; any other is refused with words that
end in the text as it was given. -/
structure ReadsNames (parse : String → Except SettingsError Value) (name : Value → String)
    (lead : String) : Prop where
  accepts : ∀ text value, parse text = .ok value ↔ Spells (name value) text
  refuses : ∀ text, (∀ value, ¬ Spells (name value) text) →
    ∃ error, parse text = .error error ∧ Failure.ofSettings error = .settings (lead ++ text)

theorem Naming.readsNames (naming : Naming all name) (fits : LowerCasing lower) {lead : String}
    (words : ∀ text, (unknown text).message = lead ++ text) :
    ReadsNames (readName all name unknown lower) name lead := by
  refine ⟨fun text value => readName_eq_ok_iff naming fits, ?_⟩
  intro text unspelled
  exact ⟨unknown text, readName_eq_error naming fits unspelled, congrArg _ (words text)⟩

theorem Policy.naming : Naming Policy.all Policy.name where
  complete value := by cases value <;> decide
  distinct {first second} := by cases first <;> cases second <;> decide
  letters value := by cases value <;> simp [Policy.name, NameLetter]

theorem ReportFormat.naming : Naming ReportFormat.all ReportFormat.name where
  complete value := by cases value <;> decide
  distinct {first second} := by cases first <;> cases second <;> decide
  letters value := by cases value <;> simp [ReportFormat.name, NameLetter]

theorem lowerCasing_of_forall {each : Char → List Char}
    (lowers : ∀ char, LowersTo char (each char)) :
    LowerCasing fun text => text.toList.flatMap each := by
  intro text
  refine ⟨text.toList.map each, ?_, rfl⟩
  rw [List.forall₂_map_right_iff]
  exact List.forall₂_same.mpr fun char _ => lowers char

theorem lowersTo_lowerChar (char : Char) : LowersTo char [lowerChar char] := by
  by_cases kelvin : char.val = 0x212A
  · have sign : char.toNat = 0x212A := congrArg UInt32.toNat kelvin
    refine ⟨?_, ?_, ?_⟩
    · intro small
      omega
    · intro _
      simp [lowerChar, kelvin]
    · intro _ different
      exact absurd sign different
  · have same : lowerChar char = char.toLower := if_neg kelvin
    rw [same]
    refine ⟨fun _ => rfl, ?_, ?_⟩
    · intro sign
      have value : char.val.toNat = (0x212A : UInt32).toNat := sign
      exact absurd (UInt32.toNat_inj.mp value) kelvin
    · intro beyond _
      refine ⟨char.toLower, List.mem_singleton_self _, ?_⟩
      rw [toNat_toLower]
      split <;> omega

theorem lowerCasing_lowerCase : LowerCasing lowerCase := by
  have pointwise : lowerCase = fun text => text.toList.flatMap fun char => [lowerChar char] := by
    funext text
    exact List.map_eq_flatMap
  rw [pointwise]
  exact lowerCasing_of_forall lowersTo_lowerChar

end Names

namespace Settings

/-- The policy that a change sets, if its name is one. -/
def Change.policy? : Change → Option Policy
  | .policy name => (Policy.parse name).toOption
  | .report _ => none

/-- The report format that a change sets, if its name is one. -/
def Change.report? : Change → Option ReportFormat
  | .policy _ => none
  | .report name => (ReportFormat.parse name).toOption

theorem keep_eq (settings : Settings) (change : Change) :
    settings.keep change =
      ⟨change.policy?.getD settings.policy, change.report?.getD settings.report⟩ := by
  cases change with
  | policy name =>
    simp only [keep, apply, Change.policy?, Change.report?]
    cases Policy.parse name <;> rfl
  | report name =>
    simp only [keep, apply, Change.policy?, Change.report?]
    cases ReportFormat.parse name <;> rfl

/-- A setting that each change sets or leaves holds what was set last. -/
theorem applyAll_last {Value : Type} {field : Settings → Value} {given : Change → Option Value}
    (step : ∀ settings change, field (settings.keep change) = (given change).getD (field settings))
    (settings : Settings) (changes : List Change) :
    field (settings.applyAll changes) =
      (changes.filterMap given).getLast?.getD (field settings) := by
  induction changes generalizing settings with
  | nil => rfl
  | cons change rest ih =>
    have later : field (settings.applyAll (change :: rest)) =
        (rest.filterMap given).getLast?.getD ((given change).getD (field settings)) := by
      rw [← step]
      exact ih (settings.keep change)
    rw [later]
    cases offered : given change with
    | none => simp [offered]
    | some value => simp [offered, List.getLast?_cons]

/-- Names are read alike under every lower-casing, and each setting holds what the last good
change to it read. -/
theorem read_by_name (lower : String → List Char) (fits : LowerCasing lower) :
    (Policy.parseIn lower = Policy.parse ∧ ReportFormat.parseIn lower = ReportFormat.parse) ∧
    ReadsNames Policy.parse Policy.name "Invalid high-bit policy: " ∧
    ReadsNames ReportFormat.parse ReportFormat.name "Invalid report format: " ∧
    ∀ changes, applyAll {} changes =
      { policy := (changes.filterMap Change.policy?).getLast?.getD .warn
        report := (changes.filterMap Change.report?).getLast?.getD .text } := by
  refine ⟨⟨?_, ?_⟩, ?_, ?_, ?_⟩
  · exact readName_eq Policy.naming fits lowerCasing_lowerCase
  · exact readName_eq ReportFormat.naming fits lowerCasing_lowerCase
  · exact Policy.naming.readsNames lowerCasing_lowerCase fun text => rfl
  · exact ReportFormat.naming.readsNames lowerCasing_lowerCase fun text => rfl
  · intro changes
    have policies := applyAll_last (fun before change => congrArg policy (keep_eq before change))
      {} changes
    have reports := applyAll_last (fun before change => congrArg report (keep_eq before change))
      {} changes
    rw [← policies, ← reports]

theorem read_by_name_dotted :
    let lower : String → List Char := fun text => text.toList.flatMap fun char =>
      if char = '\u0130' then ['i', '\u0307'] else [lowerChar char]
    LowerCasing lower ∧ Policy.parseIn lower "ReJECT" = .ok .reject ∧
      (∃ error, ReportFormat.parseIn lower "QU\u0130ET" = .error error ∧
        Failure.ofSettings error = .settings "Invalid report format: QU\u0130ET") ∧
      applyAll {} [.policy "ALLOW", .report "yaml", .policy " warn", .report "Json"] =
        ⟨.allow, .json⟩ := by
  intro lower
  have fits : LowerCasing lower := by
    apply lowerCasing_of_forall
    intro char
    split
    · rename_i dotted
      subst dotted
      exact ⟨by decide, by decide, fun _ _ => ⟨'\u0307', by decide, by decide⟩⟩
    · exact lowersTo_lowerChar char
  obtain ⟨⟨policies, reports⟩, policy, report, final⟩ := read_by_name lower fits
  rw [policies, reports, final]
  refine ⟨fits, ?_, ?_, rfl⟩
  · exact (policy.accepts "ReJECT" .reject).mpr (by decide)
  · exact report.refuses "QU\u0130ET" fun value => by cases value <;> decide

end Settings

end TilePack
