import TilePack.Command
import TilePack.Terminal

/-! The texts of the command line, and how it reads its arguments, from left to right.
What an argument asks for is held back until the next one is recognised, and checked
then. -/
namespace TilePack.Command

open Terminal (emphasised)

def programName : String := "tile-rle"

def version : String := "0.1.0"

def description : String :=
  "Run-length encoder for tile and tilemap data with a 7-bit literal / marker+count format"

/-- What wrong arguments are announced with. -/
def headline : String := "error:"

def helpFlag : String := "--help"

def versionText : String := s!"{programName} {version}\n"

def usage : String := s!"Usage: {programName} [OPTIONS] <INPUT> <OUTPUT>"

/-- The summary of the options. -/
def helpText : String :=
  s!"{description}

{usage}

Arguments:
  <INPUT>   Input file to encode
  <OUTPUT>  Output file name

Options:
      --high-bit <HIGH_BIT>  What to do with bytes that have bit 7 set [allow, warn, reject] [default: warn]
      --report <REPORT>      How to report the result [text, json, quiet] [default: text]
  -h, --help                 Print help (see more with '--help')
  -V, --version              Print version
"

/-- The options at length. The line above a default holds only its indent. -/
def longHelpText : String :=
  let indent := "          "
  s!"Run-length encodes tile data for the in-ROM unpacker

{usage}

Arguments:
  <INPUT>
          Input file to encode

  <OUTPUT>
          Output file name

Options:
      --high-bit <HIGH_BIT>
          What to do with bytes that have bit 7 set [allow, warn, reject]
{indent}
          [default: warn]

      --report <REPORT>
          How to report the result [text, json, quiet]
{indent}
          [default: text]

  -h, --help
          Print help (see a summary with '-h')

  -V, --version
          Print version
"

/-- The two paths, in the order in which they are given. -/
inductive Slot where
  | input
  | output
  deriving DecidableEq

def Slot.label : Slot → String
  | .input => "<INPUT>"
  | .output => "<OUTPUT>"

/-- The options that take a value. -/
inductive Setting where
  | policy
  | report
  deriving DecidableEq

def Setting.name : Setting → String
  | .policy => "high-bit"
  | .report => "report"

def Setting.label : Setting → String
  | .policy => "--high-bit <HIGH_BIT>"
  | .report => "--report <REPORT>"

def Setting.all : List Setting := [.policy, .report]

/-- What is wrong with the arguments. -/
inductive ArgumentError where
  | unexpected (argument : String)
  | unexpectedValue (value option : String)
  | valueRequired (label : String)
  | repeated (setting : Setting)
  | invalidValue (value : String) (setting : Setting) (cause : Failure)
  deriving DecidableEq

/-- What is repeated from the command line, or names a part of it, is emphasised. The
message of a cause is not. -/
def ArgumentError.message : ArgumentError → String
  | .unexpected argument => s!"unexpected argument '{emphasised argument}' found"
  | .unexpectedValue value option =>
    s!"unexpected value '{emphasised value}' for '{emphasised option}' found; " ++
    "no more were expected"
  | .valueRequired label =>
    s!"a value is required for '{emphasised label}' but none was supplied"
  | .repeated setting =>
    s!"the argument '{emphasised setting.label}' cannot be used multiple times"
  | .invalidValue value setting cause =>
    s!"invalid value '{emphasised value}' for '{emphasised setting.label}': {cause.message}"

/-- A value that is wrong or missing does not call for the usage. -/
def ArgumentError.wantsUsage : ArgumentError → Bool
  | .unexpected _ | .unexpectedValue _ _ | .repeated _ => true
  | .valueRequired _ | .invalidValue _ _ _ => false

/-- All that is printed about wrong arguments, as for a terminal. -/
def ArgumentError.notice (error : ArgumentError) : String :=
  let reminder := if error.wantsUsage then "\n" ++ usage ++ "\n" else ""
  s!"{emphasised headline} {error.message}\n{reminder}\n" ++
  s!"For more information, try '{emphasised helpFlag}'.\n"

/-- Why no job comes of the arguments. -/
inductive Stop where
  | help
  | longHelp
  | version
  | usage
  | wrong (error : ArgumentError)
  deriving DecidableEq

/-- Nothing but plain text is shown about a job that does not start. -/
def Stop.refusal : Stop → Refusal
  | .help => .help helpText
  | .longHelp => .help longHelpText
  | .version => .version versionText
  | .usage => .missing
  | .wrong error => .wrong (Terminal.plain error.notice)

/-- An argument that has been recognised and not checked. -/
inductive Pending where
  | path (slot : Slot) (text : String)
  | setting (setting : Setting) (value : Option String)
  deriving DecidableEq

/-- What the arguments so far amount to. After `--` all others are paths. -/
structure Draft where
  input : Option String := none
  output : Option String := none
  policy : Option Policy := none
  report : Option ReportFormat := none
  pending : Option Pending := none
  pathsOnly : Bool := false
  deriving DecidableEq

namespace Draft

def isSet (draft : Draft) : Setting → Bool
  | .policy => draft.policy.isSome
  | .report => draft.report.isSome

private def invalid (setting : Setting) (value : String) (error : SettingsError) : Stop :=
  .wrong (.invalidValue value setting (.ofSettings error))

def assign (draft : Draft) (setting : Setting) (value : String) : Except Stop Draft :=
  match setting with
  | .policy => match Policy.parse value with
    | .ok policy => .ok { draft with policy := some policy }
    | .error error => .error (invalid setting value error)
  | .report => match ReportFormat.parse value with
    | .ok report => .ok { draft with report := some report }
    | .error error => .error (invalid setting value error)

/-- Check an option: a missing value is told before a repetition, and a repetition
before a value that no setting has. -/
def checkSetting (draft : Draft) (setting : Setting) (value : Option String) : Except Stop Draft :=
  match value with
  | none => .error (.wrong (.valueRequired setting.label))
  | some value =>
    if draft.isSet setting then .error (.wrong (.repeated setting))
    else draft.assign setting value

def checkPath (draft : Draft) (slot : Slot) (text : String) : Except Stop Draft :=
  if text.isEmpty then .error (.wrong (.valueRequired slot.label))
  else match slot with
    | .input => .ok { draft with input := some text }
    | .output => .ok { draft with output := some text }

/-- Check what is pending, if anything is. -/
def check (draft : Draft) : Except Stop Draft :=
  let cleared := { draft with pending := none }
  match draft.pending with
  | none => .ok cleared
  | some (.path slot text) => cleared.checkPath slot text
  | some (.setting setting value) => cleared.checkSetting setting value

/-- The slot that the next path fills, the pending one counted. -/
def nextSlot? (draft : Draft) : Option Slot :=
  match draft.pending with
  | some (.path .input _) => some .output
  | some (.path .output _) => none
  | _ =>
    if draft.input.isNone then some .input
    else if draft.output.isNone then some .output
    else none

/-- A path too many is told at once, before what is pending. -/
def addPath (draft : Draft) (text : String) : Except Stop Draft :=
  match draft.nextSlot? with
  | none => .error (.wrong (.unexpected text))
  | some slot => do return { ← draft.check with pending := some (.path slot text) }

/-- An option of this name, with the value written after `=` if there was one. -/
def addOption (draft : Draft) (name : String) (value : Option String) : Except Stop Draft :=
  match Setting.all.find? fun setting => setting.name == name with
  | some setting => do
    let draft ← draft.check
    match value with
    | some value => draft.checkSetting setting (some value)
    | none => return { draft with pending := some (.setting setting none) }
  | none =>
    if name = "help" || name = "version" then
      match value with
      | some value => .error (.wrong (.unexpectedValue value s!"--{name}"))
      | none => do
        let _ ← draft.check
        throw (if name = "help" then .longHelp else .version)
    else .error (.wrong (.unexpected s!"--{name}"))

/-- A short option; only its first letter counts. -/
def addShort (draft : Draft) (letter : Char) : Except Stop Draft :=
  if letter = 'h' || letter = 'V' then do
    let _ ← draft.check
    throw (if letter = 'h' then .help else .version)
  else .error (.wrong (.unexpected s!"-{letter}"))

/-- An argument that is no option: a value that is waited for, or a path. -/
def addPlain (draft : Draft) (text : String) : Except Stop Draft :=
  match draft.pending with
  | some (.setting setting none) =>
    .ok { draft with pending := some (.setting setting (some text)) }
  | _ => draft.addPath text

private def splitValue (text : List Char) : String × Option String :=
  let name := String.ofList (text.takeWhile (· ≠ '='))
  match text.dropWhile (· ≠ '=') with
  | [] => (name, none)
  | _ :: value => (name, some (String.ofList value))

/-- Take in one argument. -/
def add (draft : Draft) (argument : String) : Except Stop Draft :=
  if draft.pathsOnly then draft.addPath argument
  else match argument.toList with
    | ['-', '-'] => .ok { draft with pathsOnly := true }
    | '-' :: '-' :: text => let (name, value) := splitValue text; draft.addOption name value
    | '-' :: letter :: _ => draft.addShort letter
    | _ => draft.addPlain argument

/-- At the end both paths have to be there; settings not given keep their defaults. -/
def finish (draft : Draft) : Except Stop Request := do
  let draft ← draft.check
  match draft.input, draft.output with
  | some input, some output =>
    let defaults : Settings := {}
    return ⟨input, output, draft.policy.getD defaults.policy, draft.report.getD defaults.report⟩
  | _, _ => throw .usage

end Draft

/-- The job that the arguments ask for, or why there is none. -/
def parse (arguments : List String) : Except Stop Request := do
  (← arguments.foldlM Draft.add {}).finish

/-- A tally as an object of named numbers, one to a line. -/
def jsonReport (tally : Tally) : String :=
  s!"\x7b
  \"original_size\": {tally.inputSize},
  \"encoded_size\": {tally.encodedSize},
  \"ratio\": {tally.reportedRatio},
  \"literal_records\": {tally.literals},
  \"run_records\": {tally.runs},
  \"high_bit_records\": {tally.flagged}
\x7d"

/-- The tools of the program as it is run: every tally can be serialized, and of the
events only errors are logged. -/
def standard : Tools where
  parse arguments := (parse arguments).mapError Stop.refusal
  usage := usage
  serialize tally := .ok (jsonReport tally)
  log event := if event.level = "ERROR" then event.render "" ++ "\n" else ""

end TilePack.Command
