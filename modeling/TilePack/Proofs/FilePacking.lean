import TilePack.Proofs.Delivery
import TilePack.Proofs.Paths

/-! Packing one file into another, told by the files before and after. The output is
opened last, so what fails before that changes nothing, and the input may be the output. -/
namespace TilePack

/-- Pack one file of a file system into another. -/
def FileSystem.packFile (files : FileSystem) (settings : Settings) (input output : String) :
    Logged (Except Failure Tally) × FileSystem :=
  ((TilePack.packFile storage settings input output).run files).run

section PackFile

variable {settings : Settings} {files : FileSystem} {input output : String} {data : List UInt8}

theorem packFile_of_unread {fault : Fault} (failed : files.read input = .error fault) :
    files.packFile settings input output =
      (⟨.error (.read input fault), [.opening input output]⟩, files) := by
  simp [FileSystem.packFile, packFile, FileSystem.storage, failed]

theorem packFile_of_refused {failure : Failure} (read : files.read input = .ok data)
    (refused : settings.policy.refusal? data = some failure) :
    files.packFile settings input output =
      (⟨.error failure, [.opening input output]⟩, files) := by
  simp [FileSystem.packFile, packFile, FileSystem.storage, read, pack_of_refused refused]

/-- Once the input is packed, replacing the output decides. -/
theorem packFile_of_accepted (read : files.read input = .ok data)
    (accepted : settings.policy.refusal? data = none) :
    (files.packFile settings input output).1.value =
        (match (files.replace output (encode data)).1 with
          | .error fault => .error (.write output fault)
          | .ok _ => .ok (Progress.ofBytes data).finish.tally) ∧
      (files.packFile settings input output).2 = (files.replace output (encode data)).2 := by
  rcases replaced : files.replace output (encode data) with ⟨result, after⟩
  cases result <;>
    simp [FileSystem.packFile, packFile, FileSystem.storage, read, pack_of_accepted accepted,
      Progress.bytes_finish_ofBytes, replaced]

end PackFile

/-- All that packing a file can end in, with the files it leaves. -/
inductive FileOutcome (settings : Settings) (files : FileSystem) (input output : String) :
    Except Failure Tally → FileSystem → Prop where
  | unread {fault : Fault} (failed : files.read input = .error fault) :
      FileOutcome settings files input output (.error (.read input fault)) files
  | refused {data : List UInt8} {offset : Nat} {value : UInt8} (read : files.read input = .ok data)
      (rejects : settings.policy.Rejects data) (first : FirstFlagged data offset value) :
      FileOutcome settings files input output (.error (.flaggedByte offset value)) files
  | unwritten {data : List UInt8} {fault : Fault} {after : FileSystem}
      (read : files.read input = .ok data) (passes : ¬ settings.policy.Rejects data)
      (replaced : files.replace output (encode data) = (.error fault, after)) :
      FileOutcome settings files input output (.error (.write output fault)) after
  | written {data : List UInt8} {after : FileSystem}
      (read : files.read input = .ok data) (passes : ¬ settings.policy.Rejects data)
      (replaced : files.replace output (encode data) = (.ok (), after)) :
      FileOutcome settings files input output (.ok (Progress.ofBytes data).finish.tally) after

theorem fileOutcome_packFile (settings : Settings) (files : FileSystem) (input output : String) :
    FileOutcome settings files input output (files.packFile settings input output).1.value
      (files.packFile settings input output).2 := by
  cases read : files.read input with
  | error fault =>
    rw [packFile_of_unread read]
    exact .unread read
  | ok data =>
    by_cases rejects : settings.policy.Rejects data
    · obtain ⟨offset, value, first, refused⟩ := Policy.refusal?_of_rejects rejects
      rw [packFile_of_refused read refused]
      exact .refused read rejects first
    · obtain ⟨ended, left⟩ := packFile_of_accepted read (Policy.refusal?_of_not_rejects rejects)
      rw [ended, left]
      rcases replaced : files.replace output (encode data) with ⟨result, after⟩
      cases result with
      | error fault => exact .unwritten read rejects replaced
      | ok _ => exact .written read rejects replaced

theorem Policy.rejects_iff {policy : Policy} {data : List UInt8} :
    policy.Rejects data ↔ policy = .reject ∧ ∃ byte ∈ data, 0x80 ≤ byte := by
  have high (byte : UInt8) : isFlagged byte = true ↔ 0x80 ≤ byte := by
    rw [isFlagged_iff, UInt8.le_iff_toNat_le]
    rfl
  simp only [Policy.Rejects, high]

/-- What packing a file does to the files: the output comes to hold the packed form, or a front
part of it, and no other path is touched. -/
theorem packFile_atomic (settings : Settings) (files : FileSystem) (input output : String) :
    let result := (files.packFile settings input output).1.value
    let after := (files.packFile settings input output).2
    let rejected (data : List UInt8) := settings.policy = .reject ∧ ∃ byte ∈ data, 0x80 ≤ byte
    (∀ path fault, result = .error (.read path fault) ↔
      path = input ∧ files.read input = .error fault) ∧
    (∀ data, files.read input = .ok data →
      ((∃ offset value, result = .error (.flaggedByte offset value)) ↔ rejected data) ∧
      (¬ rejected data →
        let write := (files.replace output (encode data)).1
        ((∃ tally, result = .ok tally) ↔ write = .ok ()) ∧
        ∀ fault, result = .error (.write output fault) ↔ write = .error fault)) ∧
    (∀ path fault, result = .error (.read path fault) → after = files) ∧
    (∀ offset value, result = .error (.flaggedByte offset value) → after = files) ∧
    (∀ tally, result = .ok tally → ∃ data location,
      files.read input = .ok data ∧ files.resolveNew output = .ok location ∧
      FileSystem.SameBut location files after ∧
      (after.resolve output = .ok location ∧ after.lookup location = some (.file (encode data)) ∨
        (files.lookup location = some .null ∨ files.lookup location = some .full) ∧
          after = files)) ∧
    (∀ path fault, result = .error (.write path fault) → path = output ∧
      (after = files ∨ ∃ data location kept,
        files.read input = .ok data ∧ files.resolveNew output = .ok location ∧
        FileSystem.SameBut location files after ∧ after.lookup location = some (.file kept) ∧
        kept <+: encode data ∧ kept ≠ encode data)) := by
  intro result after rejected
  have ended : FileOutcome settings files input output result after :=
    fileOutcome_packFile settings files input output
  clear_value result after
  refine ⟨?_, ?_, ?_, ?_, ?_, ?_⟩
  · intro path fault
    cases ended with
    | unread failed => simp [failed, eq_comm]
    | refused read _ _ => simp [read]
    | unwritten read _ _ => simp [read]
    | written read _ _ => simp [read]
  · intro data read
    have known : settings.policy.Rejects data ↔ rejected data := Policy.rejects_iff
    rw [← known]
    cases ended with
    | unread failed => simp [failed] at read
    | refused own rejects _ =>
      obtain rfl := Except.ok.inj (own.symm.trans read)
      simp [rejects]
    | unwritten own passes replaced =>
      obtain rfl := Except.ok.inj (own.symm.trans read)
      simp [passes, replaced, eq_comm]
    | written own passes replaced =>
      obtain rfl := Except.ok.inj (own.symm.trans read)
      simp [passes, replaced]
  · rintro path fault rfl
    cases ended
    rfl
  · rintro offset value rfl
    cases ended
    rfl
  · rintro tally rfl
    cases ended with
    | written read passes replaced =>
      obtain ⟨location, found, same, held⟩ := FileSystem.of_replace_eq_ok replaced
      exact ⟨_, location, read, found, same, held⟩
  · rintro path fault rfl
    cases ended with
    | unwritten read passes replaced =>
      refine ⟨rfl, ?_⟩
      rcases FileSystem.of_replace_eq_error replaced with left | ⟨location, kept, front⟩
      · exact .inl left
      · exact .inr ⟨_, location, kept, read, front⟩

/-- A file packed into itself, by two paths. -/
theorem packFile_atomic_same_file :
    let files := FileSystem.fresh.set ["tmp", "work", "a"] (.file [5, 5, 5])
    let after := (files.packFile {} "a" "../work//a").2
    files.read "a" = .ok [5, 5, 5] ∧
      (files.packFile {} "a" "../work//a").1.value =
        .ok { inputSize := 3, encodedSize := 2, runs := 1 } ∧
      files.resolveNew "../work//a" = .ok ["tmp", "work", "a"] ∧
      after.lookup ["tmp", "work", "a"] = some (.file [0x85, 3]) := by
  intro files after
  have read : files.read "a" = .ok [5, 5, 5] := rfl
  have done : (files.packFile {} "a" "../work//a").1.value =
      .ok { inputSize := 3, encodedSize := 2, runs := 1 } := rfl
  have place : files.resolveNew "../work//a" = .ok ["tmp", "work", "a"] := rfl
  have regular : ¬ (files.lookup ["tmp", "work", "a"] = some .null ∨
      files.lookup ["tmp", "work", "a"] = some .full) := by decide +kernel
  have packed : encode [5, 5, 5] = [0x85, 3] := by decide +kernel
  refine ⟨read, done, place, ?_⟩
  clear_value files
  obtain ⟨-, -, -, -, succeeds, -⟩ := packFile_atomic {} files "a" "../work//a"
  obtain ⟨data, location, own, found, -, held⟩ := succeeds _ done
  obtain rfl := Except.ok.inj (read.symm.trans own)
  obtain rfl := Except.ok.inj (place.symm.trans found)
  rw [packed] at held
  rcases held with ⟨-, held⟩ | ⟨device, -⟩
  · exact held
  · exact absurd device regular

/-- A disk with room for one byte keeps that byte and none of the older ones. -/
example :
    let files := { (FileSystem.fresh.set ["tmp", "work", "a"] (.file [5, 5, 5])).set
      ["tmp", "work", "b"] (.file [9, 9]) with
      limits := [(["tmp", "work", "b"], ⟨1, .noSpace, rfl⟩)] }
    (files.packFile {} "a" "b").1.value = .error (.write "b" .noSpace) ∧
      (files.packFile {} "a" "b").2.read "b" = .ok [0x85] ∧
      (files.packFile {} "a" "b").2.read "a" = .ok [5, 5, 5] :=
  ⟨rfl, rfl, rfl⟩

end TilePack
