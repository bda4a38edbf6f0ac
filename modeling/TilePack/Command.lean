import TilePack.FileSystem

/-! The command line over any storage: arguments in, exit code and printed text out. How
arguments are read, tallies serialized and events logged is left open. -/
namespace TilePack.Command

/-- A job for the command line. -/
structure Request where
  input : String
  output : String
  settings : Settings
  deriving DecidableEq

/-- Why no job comes of the arguments, with the text to show about it. -/
inductive Refusal where
  | help (text : String)
  | version (text : String)
  | missing
  | wrong (notice : String)
  deriving DecidableEq

/-- What a command line relies on: a reader of arguments with its usage, a serializer
that may fail, and a log that turns each event into text on the error stream. -/
structure Tools where
  parse : List String → Except Refusal Request
  usage : String
  serialize : Tally → Except String String
  log : Event → String

/-- What is printed, and the code to exit with. -/
structure Response where
  code : UInt32
  stdout : String := ""
  stderr : String := ""
  deriving DecidableEq

/-- Only help and version are asked for; all other refusals are failures. -/
def Refusal.response (usage : String) : Refusal → Response
  | .help text => ⟨0, text, ""⟩
  | .version text => ⟨0, text, ""⟩
  | .missing => ⟨1, usage ++ "\n", ""⟩
  | .wrong notice => ⟨1, "", notice⟩

/-- The largest unit that gives a span of nanoseconds a whole part, with its size. -/
def elapsedUnit (nanoseconds : Nat) : String × Nat :=
  if 1000000000 ≤ nanoseconds then ("s", 1000000000)
  else if 1000000 ≤ nanoseconds then ("ms", 1000000)
  else if 1000 ≤ nanoseconds then ("µs", 1000)
  else ("ns", 1)

/-- Two places, a half going to the even neighbour. -/
def elapsedText (nanoseconds : Nat) : String :=
  let (name, size) := elapsedUnit nanoseconds
  let amount : Decimal.Fixed := ⟨Decimal.roundDiv .toEven (nanoseconds * 100) size, 2⟩
  amount.render ++ name

def textReport (tally : Tally) (elapsed : String) : String :=
  s!"Encoding successful!
  Original Size:    {tally.inputSize} bytes
  Encoded Size:     {tally.encodedSize} bytes
  Ratio:            {tally.shownRatio}x
  Records:          {tally.literals} literal, {tally.runs} run
  Elapsed Time:     {elapsed}
"

/-- The report on a finished job. Nothing is printed of one that cannot be serialized. -/
def Tools.report (tools : Tools) (format : ReportFormat) (tally : Tally) (elapsed : String) :
    Except Failure String :=
  match format with
  | .quiet => .ok ""
  | .text => .ok (textReport tally elapsed)
  | .json =>
    match tools.serialize tally with
    | .ok text => .ok (text ++ "\n")
    | .error cause => .error (.report cause)

/-- What a job comes to: its own failure, or its report. -/
def Request.result (request : Request) (tools : Tools) (elapsed : String)
    (outcome : Except Failure Tally) : Except Failure String := do
  tools.report request.settings.report (← outcome) elapsed

/-- The response to a job that ran. What was logged on the way stands first. -/
def Request.response (request : Request) (tools : Tools) (elapsed : String)
    (outcome : Logged (Except Failure Tally)) : Response :=
  let logged := String.join (outcome.events.map tools.log)
  match request.result tools elapsed outcome.value with
  | .ok text => ⟨0, text, logged⟩
  | .error failure => ⟨1, "", logged ++ s!"Error: {failure.message}\n"⟩

/-- Run the job that the arguments ask for; `timed` runs an action and tells the time it
took. -/
def run [Monad m] (tools : Tools) (storage : Storage m)
    (timed : m (Logged (Except Failure Tally)) → m (Logged (Except Failure Tally) × String))
    (arguments : List String) : m Response :=
  match tools.parse arguments with
  | .error refusal => return refusal.response tools.usage
  | .ok request => do
    let (outcome, elapsed) ←
      timed (packFile storage request.settings request.input request.output)
    return request.response tools elapsed outcome

/-- A stream that a process prints to: the bytes it was given, and the locations that
lead to it when a file is opened there. -/
structure Channel where
  written : List UInt8 := []
  locations : List Location
  deriving DecidableEq

namespace Channel

def write (channel : Channel) (bytes : List UInt8) : Channel :=
  { channel with written := channel.written ++ bytes }

def print (channel : Channel) (text : String) : Channel := channel.write text.toUTF8.toList

/-- Bytes that were stored at a location, seen on the stream it leads to. -/
def echo (channel : Channel) (place : Except Fault Location) (bytes : List UInt8) : Channel :=
  match place with
  | .error _ => channel
  | .ok location => if location ∈ channel.locations then channel.write bytes else channel

end Channel

/-- A file system, and the two streams of a process that works on it. -/
structure Machine where
  files : FileSystem
  output : Channel := { locations := [["dev", "stdout"]] }
  error : Channel := { locations := [["dev", "stderr"]] }
  deriving DecidableEq

namespace Machine

/-- Replace a file. The streams show what is stored where they stand. -/
def replace (machine : Machine) (path : String) (bytes : List UInt8) :
    Except Fault Unit × Machine :=
  let place := machine.files.resolveNew path
  match machine.files.replace path bytes with
  | (.error fault, files) => (.error fault, { machine with files })
  | (.ok _, files) =>
    (.ok (), ⟨files, machine.output.echo place bytes, machine.error.echo place bytes⟩)

def storage : Storage (StateM Machine) where
  read path := do return (← get).files.read path
  replace path bytes := modifyGet fun machine => machine.replace path bytes

def print (machine : Machine) (response : Response) : Machine :=
  { machine with
    output := machine.output.print response.stdout
    error := machine.error.print response.stderr }

end Machine

/-- Some way to tell the time of a job on a machine held as a value. -/
abbrev Timer :=
  StateM Machine (Logged (Except Failure Tally)) →
    StateM Machine (Logged (Except Failure Tally) × String)

/-- The command line on a machine held as a value. -/
def runOn (tools : Tools) (timed : Timer) (arguments : List String) (machine : Machine) :
    UInt32 × Machine :=
  let (response, machine) := ((run tools Machine.storage timed arguments).run machine).run
  (response.code, machine.print response)

end TilePack.Command
