import TilePack.FileSystem

/-! Paths in a file system whose files change. Writing a file where no directory stands
turns no path aside: those that led elsewhere still do, and no others come to. -/
namespace TilePack.FileSystem

theorem bind_eq_ok_iff {α β : Type} {action : Except Fault α} {next : α → Except Fault β}
    {result : β} :
    action >>= next = .ok result ↔ ∃ value, action = .ok value ∧ next value = .ok result := by
  cases action with
  | error fault => simp [bind, Except.bind]
  | ok value => simp [bind, Except.bind]

variable {files : FileSystem} {location base next last other : Location} {bytes : List UInt8}
  {name path : String} {names : List String}

/-- A name that can be a file's. -/
structure ProperName (name : String) : Prop where
  notSame : name ≠ "."
  notAbove : name ≠ ".."
  short : name.utf8ByteSize ≤ Path.maxName

/-- All that following one name can do. -/
theorem enter_eq_ok_iff :
    files.enter base name = .ok next ↔ files.search base = .ok () ∧
      (name = "." ∧ next = base ∨ name = ".." ∧ next = base.dropLast ∨
        ProperName name ∧ next = base ++ [name] ∧ (files.lookup next).isSome) := by
  rw [enter, bind_eq_ok_iff]
  constructor
  · rintro ⟨_, searched, led⟩
    refine ⟨searched, ?_⟩
    split at led
    · rename_i same
      exact .inl ⟨same, (Except.ok.inj led).symm⟩
    · rename_i notSame
      split at led
      · rename_i above
        exact .inr (.inl ⟨above, (Except.ok.inj led).symm⟩)
      · rename_i notAbove
        split at led
        · cases led
        · rename_i short
          split at led
          · rename_i present
            obtain rfl := Except.ok.inj led
            exact .inr (.inr ⟨⟨notSame, notAbove, Nat.not_lt.mp short⟩, rfl, present⟩)
          · cases led
  · rintro ⟨searched, ⟨rfl, rfl⟩ | ⟨rfl, rfl⟩ | ⟨proper, rfl, present⟩⟩
    · exact ⟨(), searched, rfl⟩
    · exact ⟨(), searched, rfl⟩
    · refine ⟨(), searched, ?_⟩
      simp [proper.notSame, proper.notAbove, Nat.not_lt.mpr proper.short, present]

theorem isDirectory_of_search (searched : files.search base = .ok ()) :
    files.isDirectory base = true := by
  unfold search at searched
  split at searched
  · assumption
  · cases searched

theorem walk_nil_eq_ok_iff : files.walk base [] = .ok last ↔ base = last := by
  constructor
  · intro walked
    exact Except.ok.inj walked
  · rintro rfl
    rfl

theorem walk_cons_eq_ok_iff :
    files.walk base (name :: names) = .ok last ↔
      ∃ next, files.enter base name = .ok next ∧ files.walk next names = .ok last := by
  rw [walk, List.foldlM_cons, bind_eq_ok_iff]
  rfl

theorem walk_concat_eq_ok_iff :
    files.walk base (names ++ [name]) = .ok last ↔
      ∃ parent, files.walk base names = .ok parent ∧ files.enter parent name = .ok last := by
  rw [walk, List.foldlM_append, bind_eq_ok_iff]
  simp only [List.foldlM_cons, List.foldlM_nil, bind_pure]
  rfl

theorem eq_of_walk (closed : files.isDirectory base = false)
    (walked : files.walk base names = .ok last) : last = base := by
  cases names with
  | nil => exact (walk_nil_eq_ok_iff.mp walked).symm
  | cons name rest =>
    obtain ⟨next, entered, -⟩ := walk_cons_eq_ok_iff.mp walked
    have directory := isDirectory_of_search (enter_eq_ok_iff.mp entered).1
    rw [closed] at directory
    cases directory

theorem resolve_eq_ok_iff :
    files.resolve path = .ok location ↔ ∃ parsed, Path.parse path = .ok parsed ∧
      files.walk (files.start parsed) parsed.names = .ok location ∧
      (parsed.trailingSlash = true → files.isDirectory location = true) := by
  rw [resolve, bind_eq_ok_iff]
  refine exists_congr fun parsed => and_congr_right fun _ => ?_
  rw [bind_eq_ok_iff]
  constructor
  · rintro ⟨found, walked, checked⟩
    split at checked
    · cases checked
    · rename_i passes
      obtain rfl := Except.ok.inj checked
      refine ⟨walked, ?_⟩
      simpa using passes
  · rintro ⟨walked, passes⟩
    refine ⟨location, walked, ?_⟩
    have fits : ¬ (parsed.trailingSlash && !files.isDirectory location) = true := by
      simpa using passes
    rw [if_neg fits]

theorem parent_of_resolveNew (found : files.resolveNew path = .ok location) :
    ∃ parsed above name parent, Path.parse path = .ok parsed ∧ parsed.trailingSlash = false ∧
      parsed.names = above ++ [name] ∧ ProperName name ∧
      files.walk (files.start parsed) above = .ok parent ∧ files.search parent = .ok () ∧
      location = parent ++ [name] := by
  rw [resolveNew, bind_eq_ok_iff] at found
  obtain ⟨parsed, reads, found⟩ := found
  obtain ⟨parent, walked, found⟩ := bind_eq_ok_iff.mp found
  split at found
  · cases found
  · rename_i name final
    obtain ⟨_, searched, found⟩ := bind_eq_ok_iff.mp found
    split at found
    · cases found
    · rename_i unlike
      split at found
      · cases found
      · rename_i short
        obtain rfl := Except.ok.inj found
        simp only [Bool.or_eq_true, decide_eq_true_eq, not_or] at unlike
        obtain ⟨⟨slash, notSame⟩, notAbove⟩ := unlike
        obtain ⟨above, whole⟩ := List.getLast?_eq_some_iff.mp final
        rw [whole, List.dropLast_concat] at walked
        exact ⟨parsed, above, name, parent, reads, Bool.eq_false_iff.mpr slash, whole,
          ⟨notSame, notAbove, Nat.not_lt.mp short⟩, walked, searched, rfl⟩

section Storing

/-! In this section a file is written at `location`, where no directory stands. -/

variable (closed : files.isDirectory location = false)

include closed

theorem ne_root : location ≠ [] := by
  rintro rfl
  cases closed

theorem lookup_set_file (other : Location) :
    (files.set location (.file bytes)).lookup other =
      if other = location then some (.file bytes) else files.lookup other :=
  lookup_set files location other (.file bytes) (ne_root closed)

theorem isDirectory_set_file (other : Location) :
    (files.set location (.file bytes)).isDirectory other = files.isDirectory other := by
  rw [isDirectory, lookup_set_file closed]
  split
  · rename_i same
    rw [same, closed]
    rfl
  · rfl

theorem search_set_file (other : Location) :
    (files.set location (.file bytes)).search other = files.search other := by
  rw [search, isDirectory_set_file closed]
  rfl

theorem enter_set_file_iff (away : next ≠ location) :
    (files.set location (.file bytes)).enter base name = .ok next ↔
      files.enter base name = .ok next := by
  rw [enter_eq_ok_iff, enter_eq_ok_iff, search_set_file closed, lookup_set_file closed,
    if_neg away]

/-- A walk that ends elsewhere has not come past the file, before or after. -/
theorem walk_set_file_iff (away : last ≠ location) :
    (files.set location (.file bytes)).walk base names = .ok last ↔
      files.walk base names = .ok last := by
  induction names generalizing base with
  | nil => rw [walk_nil_eq_ok_iff, walk_nil_eq_ok_iff]
  | cons name rest ih =>
    rw [walk_cons_eq_ok_iff, walk_cons_eq_ok_iff]
    refine exists_congr fun next => ?_
    by_cases past : next = location
    · subst past
      have stuck : files.walk next rest ≠ .ok last := fun walked => away (eq_of_walk closed walked)
      rw [ih]
      simp [stuck]
    · rw [enter_set_file_iff closed past, ih]

theorem resolve_set_file_iff (away : other ≠ location) :
    (files.set location (.file bytes)).resolve path = .ok other ↔
      files.resolve path = .ok other := by
  rw [resolve_eq_ok_iff, resolve_eq_ok_iff]
  refine exists_congr fun parsed => and_congr_right fun _ => ?_
  rw [isDirectory_set_file closed]
  exact and_congr_left fun _ => walk_set_file_iff closed away

theorem read_set_file (leads : files.resolve path = .ok other) (away : other ≠ location) :
    (files.set location (.file bytes)).read path = files.read path := by
  rw [read, read, (resolve_set_file_iff closed away).mpr leads, leads]
  change (files.permit .read other >>= fun _ => _) = (files.permit .read other >>= fun _ => _)
  rw [lookup_set_file closed, if_neg away]

/-- The path that a file was created by leads to it. -/
theorem resolve_set_file_self (found : files.resolveNew path = .ok location) :
    (files.set location (.file bytes)).resolve path = .ok location := by
  obtain ⟨parsed, above, name, parent, reads, slash, whole, proper, walked, searched, rfl⟩ :=
    parent_of_resolveNew found
  have away : parent ≠ parent ++ [name] := by simp
  have present : ((files.set (parent ++ [name]) (.file bytes)).lookup (parent ++ [name])).isSome := by
    simp [lookup_set_file closed]
  have entered : (files.set (parent ++ [name]) (.file bytes)).enter parent name =
      .ok (parent ++ [name]) := by
    rw [enter_eq_ok_iff, search_set_file closed]
    exact ⟨searched, .inr (.inr ⟨proper, rfl, present⟩)⟩
  refine resolve_eq_ok_iff.mpr ⟨parsed, reads, ?_, by simp [slash]⟩
  rw [whole]
  exact walk_concat_eq_ok_iff.mpr ⟨parent, (walk_set_file_iff closed away).mpr walked, entered⟩

end Storing

/-- Two states that differ at one location at most: elsewhere the same things stand, and
the paths that lead elsewhere are the same and read the same. -/
structure SameBut (location : Location) (before after : FileSystem) : Prop where
  lookup : ∀ other, other ≠ location → after.lookup other = before.lookup other
  resolve : ∀ path other, other ≠ location →
    (after.resolve path = .ok other ↔ before.resolve path = .ok other)
  read : ∀ path other, other ≠ location → before.resolve path = .ok other →
    after.read path = before.read path

theorem SameBut.refl (location : Location) (files : FileSystem) : SameBut location files files :=
  ⟨fun _ _ => rfl, fun _ _ _ => Iff.rfl, fun _ _ _ _ => rfl⟩

theorem sameBut_set_file (closed : files.isDirectory location = false) (bytes : List UInt8) :
    SameBut location files (files.set location (.file bytes)) where
  lookup other away := by rw [lookup_set_file closed, if_neg away]
  resolve path other away := resolve_set_file_iff closed away
  read path other away leads := read_set_file closed leads away

/-- All that replacing a file can do. A path that cannot be opened changes nothing, nor
does a device; a file is written up to some byte, and whole if the writing succeeds. -/
inductive Replaces (files : FileSystem) (path : String) (bytes : List UInt8)
    (result : Except Fault Unit) (after : FileSystem) : Prop where
  | unopened (fault : Fault) (failed : result = .error fault) (left : after = files)
  | device (location : Location) (found : files.resolveNew path = .ok location)
      (stands : files.lookup location = some .null ∨ files.lookup location = some .full)
      (left : after = files)
  | stored (location : Location) (found : files.resolveNew path = .ok location)
      (closed : files.isDirectory location = false) (kept : List UInt8) (front : kept <+: bytes)
      (whole : result = .ok () ↔ kept = bytes)
      (left : after = files.set location (.file kept))

theorem resolveNew_of_openNew (opened : files.openNew path = .ok location) :
    files.resolveNew path = .ok location ∧ files.isDirectory location = false := by
  rw [openNew, bind_eq_ok_iff] at opened
  obtain ⟨found, resolved, opened⟩ := opened
  split at opened
  · cases opened
  · rename_i closed
    obtain ⟨_, -, same⟩ := bind_eq_ok_iff.mp opened
    obtain rfl := Except.ok.inj same
    exact ⟨resolved, Bool.eq_false_iff.mpr closed⟩

theorem store_eq (files : FileSystem) (location : Location) (bytes : List UInt8) :
    ∃ kept result, files.store location bytes = (result, files.set location (.file kept)) ∧
      kept <+: bytes ∧ (result = .ok () ↔ kept = bytes) := by
  unfold store
  split
  · exact ⟨bytes, .ok (), rfl, List.prefix_refl bytes, by simp⟩
  · rename_i limit _
    refine ⟨bytes.take limit.size, _, rfl, List.take_prefix _ _, ?_⟩
    by_cases fits : bytes.length ≤ limit.size
    · simp [fits, List.take_of_length_le]
    · have shorter : bytes.take limit.size ≠ bytes := by
        intro same
        have counted := congrArg List.length same
        rw [List.length_take] at counted
        omega
      simp [fits, shorter]

theorem replaces_of_eq {result : Except Fault Unit} {after : FileSystem}
    (replaced : files.replace path bytes = (result, after)) :
    Replaces files path bytes result after := by
  unfold replace at replaced
  split at replaced
  · rename_i fault _
    obtain ⟨rfl, rfl⟩ := replaced
    exact .unopened fault rfl rfl
  · rename_i location opened
    obtain ⟨found, closed⟩ := resolveNew_of_openNew opened
    unfold fill at replaced
    split at replaced
    · rename_i stands
      simp [isDirectory, stands] at closed
    · rename_i stands
      obtain ⟨-, rfl⟩ := replaced
      exact .device location found (.inl stands) rfl
    · rename_i stands
      obtain ⟨-, rfl⟩ := replaced
      exact .device location found (.inr stands) rfl
    all_goals
      obtain ⟨kept, written, same, front, whole⟩ := store_eq files location bytes
      obtain ⟨rfl, left⟩ := Prod.mk.inj (same.symm.trans replaced)
      exact .stored location found closed kept front whole left.symm

/-- A file that was written can be found by its path, and is whole. -/
theorem of_replace_eq_ok {after : FileSystem}
    (replaced : files.replace path bytes = (.ok (), after)) :
    ∃ location, files.resolveNew path = .ok location ∧ SameBut location files after ∧
      (after.resolve path = .ok location ∧ after.lookup location = some (.file bytes) ∨
        (files.lookup location = some .null ∨ files.lookup location = some .full) ∧
          after = files) := by
  cases replaces_of_eq replaced with
  | unopened fault failed left => cases failed
  | device location found stands left =>
    exact ⟨location, found, left ▸ .refl location files, .inr ⟨stands, left⟩⟩
  | stored location found closed kept _ whole left =>
    have same : kept = bytes := whole.mp rfl
    rw [left, same]
    refine ⟨location, found, sameBut_set_file closed bytes, .inl ⟨?_, ?_⟩⟩
    · exact resolve_set_file_self closed found
    · rw [lookup_set_file closed, if_pos rfl]

/-- What could not be written whole leaves nothing behind or a proper front part. -/
theorem of_replace_eq_error {after : FileSystem} {fault : Fault}
    (replaced : files.replace path bytes = (.error fault, after)) :
    after = files ∨
      ∃ location kept, files.resolveNew path = .ok location ∧ SameBut location files after ∧
        after.lookup location = some (.file kept) ∧ kept <+: bytes ∧ kept ≠ bytes := by
  cases replaces_of_eq replaced with
  | unopened fault failed left => exact .inl left
  | device location found stands left => exact .inl left
  | stored location found closed kept front whole left =>
    rw [left]
    refine .inr ⟨location, kept, found, sameBut_set_file closed kept, ?_, front, ?_⟩
    · rw [lookup_set_file closed, if_pos rfl]
    · intro same
      cases whole.mpr same

end TilePack.FileSystem
