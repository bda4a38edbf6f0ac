import TilePack.Packing

/-! A file system held as a value: what stands at each location, and how paths lead
there. Looking a path up reports the same faults as the system does. -/
namespace TilePack

/-- The names from the root down. -/
abbrev Location := List String

/-- What can stand at a location. Of the devices, `null` keeps nothing of what is written
and `full` has no room for any byte. -/
inductive Entry where
  | directory
  | file (bytes : List UInt8)
  | null
  | full
  deriving DecidableEq

/-- What is asked of a location: to look a name up in it, to read it, to open it for
writing. -/
inductive Access where
  | search
  | read
  | write
  deriving DecidableEq

/-- A fault that trying again does not clear. -/
abbrev LastingFault := { fault : Fault // fault.isInterrupted = false }

/-- How long the system lets a file become, and the fault it reports beyond. -/
structure Limit where
  size : Nat
  fault : LastingFault
  deriving DecidableEq

/-- Beside what stands where, the system may refuse an access, whatever stands there,
and may not have room for all of a file. -/
structure FileSystem where
  entries : List (Location × Entry)
  workingDirectory : Location
  refusals : List ((Access × Location) × LastingFault) := []
  limits : List (Location × Limit) := []
  deriving DecidableEq

/-- A path as written: where it starts, its names, and whether a slash ends it. -/
structure Path where
  absolute : Bool
  names : List String
  trailingSlash : Bool
  deriving DecidableEq

namespace Path

/-- The longest name and the longest path, in bytes; a path has a final byte more. -/
def maxName : Nat := 255
def maxLength : Nat := 4095

/-- A path that the system refuses before it looks anything up. -/
def parse (text : String) : Except Fault Path :=
  if text.toList.contains (Char.ofNat 0) then .error .nulInName
  else if text.isEmpty then .error .missing
  else if maxLength < text.utf8ByteSize then .error .nameTooLong
  else
    let parts := (text.toList.splitOn '/').map String.ofList
    .ok ⟨parts.head? == some "", parts.filter (· ≠ ""), parts.getLast? == some ""⟩

end Path

namespace FileSystem

/-- An empty working directory, beside the devices. -/
def fresh : FileSystem where
  entries :=
    [(["dev"], .directory), (["dev", "null"], .null), (["dev", "full"], .full),
     (["dev", "stdout"], .null), (["dev", "stderr"], .null), (["tmp"], .directory),
     (["tmp", "work"], .directory)]
  workingDirectory := ["tmp", "work"]

def lookup (files : FileSystem) (location : Location) : Option Entry :=
  if location = [] then some .directory else files.entries.lookup location

private def update (location : Location) (entry : Entry) :
    List (Location × Entry) → List (Location × Entry)
  | [] => [(location, entry)]
  | (other, old) :: rest =>
    if location = other then (location, entry) :: rest
    else (other, old) :: update location entry rest

/-- Put an entry at a location, in place of what was there. -/
def set (files : FileSystem) (location : Location) (entry : Entry) : FileSystem :=
  { files with entries := update location entry files.entries }

def isDirectory (files : FileSystem) (location : Location) : Bool :=
  files.lookup location == some .directory

def permit (files : FileSystem) (access : Access) (location : Location) : Except Fault Unit :=
  match files.refusals.lookup (access, location) with
  | some refusal => .error refusal.val
  | none => .ok ()

/-- Only a directory can be looked into. -/
def search (files : FileSystem) (location : Location) : Except Fault Unit :=
  if files.isDirectory location then files.permit .search location else .error .notDirectory

/-- Follow one name. What is entered exists. -/
def enter (files : FileSystem) (location : Location) (name : String) : Except Fault Location := do
  files.search location
  if name = "." then .ok location
  else if name = ".." then .ok location.dropLast
  else if Path.maxName < name.utf8ByteSize then .error .nameTooLong
  else if (files.lookup (location ++ [name])).isSome then .ok (location ++ [name])
  else .error .missing

def walk (files : FileSystem) (location : Location) (names : List String) :
    Except Fault Location :=
  names.foldlM files.enter location

def start (files : FileSystem) (path : Path) : Location :=
  if path.absolute then [] else files.workingDirectory

/-- The location of something that exists. A final slash asks for a directory. -/
def resolve (files : FileSystem) (text : String) : Except Fault Location := do
  let path ← Path.parse text
  let location ← files.walk (files.start path) path.names
  if path.trailingSlash && !files.isDirectory location then .error .notDirectory
  else .ok location

/-- Where a file of this path stands or would be created. Its directory has to exist,
and the path has to end in a name that can be a file's. -/
def resolveNew (files : FileSystem) (text : String) : Except Fault Location := do
  let path ← Path.parse text
  let parent ← files.walk (files.start path) path.names.dropLast
  match path.names.getLast? with
  | none => .error .isDirectory
  | some name =>
    files.search parent
    if path.trailingSlash || name = "." || name = ".." then .error .isDirectory
    else if Path.maxName < name.utf8ByteSize then .error .nameTooLong
    else .ok (parent ++ [name])

/-- The whole content of a file. The full device never ends. -/
def read (files : FileSystem) (path : String) : Except Fault (List UInt8) := do
  let location ← files.resolve path
  files.permit .read location
  match files.lookup location with
  | some (.file bytes) => .ok bytes
  | some .directory => .error .isDirectory
  | some .null => .ok []
  | some .full => .error (.plain .outOfMemory)
  | none => .error .missing

/-- Open a path for writing. A directory is refused before the system is asked. -/
def openNew (files : FileSystem) (path : String) : Except Fault Location := do
  let location ← files.resolveNew path
  if files.isDirectory location then .error .isDirectory
  else
    files.permit .write location
    return location

/-- Write a file anew, up to its limit. -/
def store (files : FileSystem) (location : Location) (bytes : List UInt8) :
    Except Fault Unit × FileSystem :=
  match files.limits.lookup location with
  | none => (.ok (), files.set location (.file bytes))
  | some limit =>
    (if bytes.length ≤ limit.size then .ok () else .error limit.fault.val,
      files.set location (.file (bytes.take limit.size)))

/-- Write to what was opened. A device keeps nothing. -/
def fill (files : FileSystem) (location : Location) (bytes : List UInt8) :
    Except Fault Unit × FileSystem :=
  match files.lookup location with
  | some .directory => (.error .isDirectory, files)
  | some .null => (.ok (), files)
  | some .full => (if bytes.isEmpty then .ok () else .error .noSpace, files)
  | some (.file _) | none => files.store location bytes

/-- Create a file, or empty an old one, and write it. -/
def replace (files : FileSystem) (path : String) (bytes : List UInt8) :
    Except Fault Unit × FileSystem :=
  match files.openNew path with
  | .error fault => (.error fault, files)
  | .ok location => files.fill location bytes

/-- Create a directory with those above it; one that exists is left alone. -/
def makeDirectory (files : FileSystem) (path : String) : Except Fault FileSystem := do
  let path ← Path.parse path
  let (files, _) ← path.names.foldlM
    (fun (files, location) name => do
      let below := location ++ [name]
      let files :=
        if name ≠ "." && name ≠ ".." && (files.lookup below).isNone then
          files.set below .directory
        else files
      let location ← files.enter location name
      return (files, location))
    (files, files.start path)
  return files

/-- All that stands below the working directory, by relative name: the content of a
file, and a name with a final slash for a directory. -/
def listing (files : FileSystem) : List (String × Option (List UInt8)) :=
  files.entries.filterMap fun (location, entry) =>
    let above := files.workingDirectory
    if above.isPrefixOf location && location ≠ above then
      let name := "/".intercalate (location.drop above.length)
      match entry with
      | .directory => some (name ++ "/", none)
      | .file bytes => some (name, some bytes)
      | .null | .full => some (name, some [])
    else none

private theorem lookup_update (location other : Location) (entry : Entry)
    (entries : List (Location × Entry)) :
    (update location entry entries).lookup other =
      if other = location then some entry else entries.lookup other := by
  induction entries with
  | nil =>
    by_cases same : other = location
    · simp [update, same]
    · simp [update, List.lookup_cons, same, beq_false_of_ne same]
  | cons head rest ih =>
    obtain ⟨name, old⟩ := head
    by_cases found : location = name
    · subst name
      by_cases same : other = location
      · simp [update, same]
      · simp [update, List.lookup_cons, same, beq_false_of_ne same]
    · by_cases same : other = name
      · subst name
        simp [update, found, Ne.symm found]
      · simp [update, found, List.lookup_cons, beq_false_of_ne same, ih]

theorem lookup_set (files : FileSystem) (location other : Location) (entry : Entry)
    (below : location ≠ []) :
    (files.set location entry).lookup other =
      if other = location then some entry else files.lookup other := by
  by_cases root : other = []
  · simp [lookup, root, Ne.symm below]
  · simp [lookup, root, set, lookup_update]

end FileSystem

/-! Packing one file into another, over any storage that can read and replace whole
files. The disk is one storage, a file system held as a value another. -/

/-- Whole-file access, by path. -/
structure Storage (m : Type → Type) where
  read (path : String) : m (Except Fault (List UInt8))
  replace (path : String) (bytes : List UInt8) : m (Except Fault Unit)

/-- A file system held as a value is a storage. -/
def FileSystem.storage : Storage (StateM FileSystem) where
  read path := do return (← get).read path
  replace path bytes := modifyGet fun files => files.replace path bytes

/-- Pack `input` into `output`. The output is not opened before the whole input is
read and packed, so a failure up to there leaves an older output as it was, and a
file can be packed into itself. -/
def packFile [Monad m] (storage : Storage m) (settings : Settings) (input output : String) :
    m (Logged (Except Failure Tally)) := do
  let opening := Event.opening input output
  match ← storage.read input with
  | .error fault => return ⟨.error (.read input fault), [opening]⟩
  | .ok data =>
    let ⟨outcome, events⟩ := pack settings data
    match outcome with
    | .error failure => return ⟨.error failure, opening :: events⟩
    | .ok packed =>
      match ← storage.replace output packed.bytes with
      | .error fault => return ⟨.error (.write output fault), opening :: events⟩
      | .ok _ => return ⟨.ok packed.tally, opening :: events⟩

/-- The same with settings by name; names that cannot be read start nothing. -/
def packFileNamed [Monad m] (storage : Storage m) (policy report : Option String)
    (input output : String) : m (Logged (Except Failure Tally)) :=
  match Settings.ofNames policy report with
  | .error error => return ⟨.error (.ofSettings error), []⟩
  | .ok settings => packFile storage settings input output

end TilePack
