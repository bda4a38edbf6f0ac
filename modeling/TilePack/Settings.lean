/-! Settings of a packing job, and the names they are given by. Names are compared
without regard to case; blanks around a name are part of it. -/
namespace TilePack

/-- What to do with input bytes that have bit 7 set. -/
inductive Policy where
  | allow
  | warn
  | reject
  deriving DecidableEq

/-- How the command line reports a finished job. -/
inductive ReportFormat where
  | text
  | json
  | quiet
  deriving DecidableEq

structure Settings where
  policy : Policy := .warn
  report : ReportFormat := .text
  deriving DecidableEq

/-- A name that no setting has, kept as it was written. -/
inductive SettingsError where
  | unknownPolicy (name : String)
  | unknownReport (name : String)
  deriving DecidableEq

def SettingsError.message : SettingsError → String
  | .unknownPolicy name => s!"Invalid high-bit policy: {name}"
  | .unknownReport name => s!"Invalid report format: {name}"

/-- The lower case of a character, as far as a name can tell. Outside ASCII only
the Kelvin sign has an ASCII lower case; every other character differs from all
characters of all names before and after. -/
def lowerChar (char : Char) : Char :=
  if char.val = 0x212A then 'k' else char.toLower

def lowerCase (name : String) : List Char := name.toList.map lowerChar

/-- The value that a text names, in lower case as `lower` puts it. -/
def readName {Value : Type} (all : List Value) (name : Value → String)
    (unknown : String → SettingsError) (lower : String → List Char) (text : String) :
    Except SettingsError Value :=
  match all.find? fun value => (name value).toList == lower text with
  | some value => .ok value
  | none => .error (unknown text)

namespace Policy

def name : Policy → String
  | .allow => "allow"
  | .warn => "warn"
  | .reject => "reject"

def label : Policy → String
  | .allow => "Allow"
  | .warn => "Warn"
  | .reject => "Reject"

def all : List Policy := [.allow, .warn, .reject]

def parseIn (lower : String → List Char) : String → Except SettingsError Policy :=
  readName all name .unknownPolicy lower

def parse (text : String) : Except SettingsError Policy := parseIn lowerCase text

end Policy

namespace ReportFormat

def name : ReportFormat → String
  | .text => "text"
  | .json => "json"
  | .quiet => "quiet"

def label : ReportFormat → String
  | .text => "Text"
  | .json => "Json"
  | .quiet => "Quiet"

def all : List ReportFormat := [.text, .json, .quiet]

def parseIn (lower : String → List Char) : String → Except SettingsError ReportFormat :=
  readName all name .unknownReport lower

def parse (text : String) : Except SettingsError ReportFormat := parseIn lowerCase text

end ReportFormat

namespace Settings

/-- A change to one setting, by name. -/
inductive Change where
  | policy (name : String)
  | report (name : String)

def apply (settings : Settings) : Change → Except SettingsError Settings
  | .policy name => (Policy.parse name).map fun policy => { settings with policy }
  | .report name => (ReportFormat.parse name).map fun report => { settings with report }

/-- A change that fails leaves the settings as they were. -/
def keep (settings : Settings) (change : Change) : Settings :=
  match settings.apply change with
  | .ok changed => changed
  | .error _ => settings

/-- The outcome of every change in a row, each made on what the earlier ones left. -/
def trace (settings : Settings) : List Change → List (Except SettingsError Settings)
  | [] => []
  | change :: rest => settings.apply change :: trace (settings.keep change) rest

def applyAll (settings : Settings) (changes : List Change) : Settings :=
  changes.foldl keep settings

/-- Settings from optional names; the policy is read first. -/
def ofNames (policy report : Option String) : Except SettingsError Settings := do
  let settings ← match policy with
    | some name => ({} : Settings).apply (.policy name)
    | none => pure {}
  match report with
  | some name => settings.apply (.report name)
  | none => pure settings

def describe (settings : Settings) : String :=
  s!"RleConfig \x7b high_bit: {settings.policy.label}, report: {settings.report.label} \x7d"

end Settings

end TilePack
