import TilePack.Command.Arguments
import TilePack.Proofs.FilePacking

/-! The command line, told by the job that its arguments ask for. It changes the files as
that job does and not at all without one, and how the result is reported shows on the
output stream alone. -/
namespace TilePack.Command

/-- Timing a job runs it and adds only how long it took. -/
def Timer.Honest (timed : Timer) : Prop :=
  ∀ action machine, ∃ elapsed, ((timed action).run machine).run =
    (((action.run machine).run.1, elapsed), (action.run machine).run.2)

namespace Tools

/-- No tally fails to be serialized. -/
def Serializes (tools : Tools) : Prop := ∀ tally, ∃ text, tools.serialize tally = .ok text

/-- Nothing is logged that is not an error. -/
def Silent (tools : Tools) : Prop := ∀ event : Event, event.level ≠ "ERROR" → tools.log event = ""

variable {tools : Tools}

theorem Serializes.report (serializes : tools.Serializes) (format : ReportFormat) (tally : Tally)
    (elapsed : String) : ∃ text, tools.report format tally elapsed = .ok text := by
  cases format with
  | quiet => exact ⟨_, rfl⟩
  | text => exact ⟨_, rfl⟩
  | json =>
    obtain ⟨text, written⟩ := serializes tally
    exact ⟨text ++ "\n", by simp [Tools.report, written]⟩

theorem Silent.log (silent : tools.Silent) (event : Event) : tools.log event = "" :=
  silent event (by cases event <;> simp [Event.level])

theorem Silent.join_log (silent : tools.Silent) (events : List Event) :
    String.join (events.map tools.log) = "" := by
  induction events with
  | nil => rfl
  | cons event rest ih => simp [String.join_cons, silent.log, ih]

end Tools

namespace Channel

@[simp] theorem print_empty (channel : Channel) : channel.print "" = channel := by
  simp [print, write]

theorem echo_of_apart {channel : Channel} {place : Except Fault Location}
    (apart : ∀ location, place = .ok location → location ∉ channel.locations)
    (bytes : List UInt8) : channel.echo place bytes = channel := by
  cases place with
  | error fault => rfl
  | ok location => simp [echo, apart location rfl]

end Channel

namespace Machine

variable {machine : Machine} {settings : Settings} {input output : String}

/-- A file of this path stands where no stream does. -/
def Apart (machine : Machine) (path : String) : Prop :=
  ∀ location, machine.files.resolveNew path = .ok location →
    location ∉ machine.output.locations ∧ location ∉ machine.error.locations

/-- Pack one file of a machine into another. -/
def packFile (machine : Machine) (settings : Settings) (input output : String) :
    Logged (Except Failure Tally) × Machine :=
  ((TilePack.packFile storage settings input output).run machine).run

/-- The files fare as without streams, which see only what is stored where they stand. -/
theorem replace_spec (machine : Machine) (path : String) (bytes : List UInt8) :
    (machine.replace path bytes).1 = (machine.files.replace path bytes).1 ∧
      (machine.replace path bytes).2.files = (machine.files.replace path bytes).2 ∧
      (machine.Apart path → (machine.replace path bytes).2.output = machine.output ∧
        (machine.replace path bytes).2.error = machine.error) := by
  unfold replace
  rcases machine.files.replace path bytes with ⟨_ | _, files⟩
  · exact ⟨rfl, rfl, fun _ => ⟨rfl, rfl⟩⟩
  · refine ⟨rfl, rfl, fun apart => ⟨?_, ?_⟩⟩
    · exact Channel.echo_of_apart (fun location found => (apart location found).1) bytes
    · exact Channel.echo_of_apart (fun location found => (apart location found).2) bytes

theorem packFile_eq_of_policy_eq {others : Settings} (same : settings.policy = others.policy) :
    machine.packFile settings input output = machine.packFile others input output := by
  simp only [packFile, TilePack.packFile, pack, same]

theorem packFile_spec (machine : Machine) (settings : Settings) (input output : String) :
    let job := machine.packFile settings input output
    job.1 = (machine.files.packFile settings input output).1 ∧
      job.2.files = (machine.files.packFile settings input output).2 ∧
      (machine.Apart output → job.2.output = machine.output ∧ job.2.error = machine.error) := by
  simp only [packFile, FileSystem.packFile, TilePack.packFile, storage, FileSystem.storage]
  cases read : machine.files.read input with
  | error fault => simp [read]
  | ok data =>
    cases outcome : (pack settings data).value with
    | error failure => simp [read, outcome]
    | ok packed =>
      obtain ⟨same, left, streams⟩ := machine.replace_spec output packed.bytes
      cases replaced : (machine.files.replace output packed.bytes).1 <;>
        simpa [read, outcome, same, left, replaced] using streams

end Machine

section Responses

variable {tools : Tools}

theorem Request.response_of_ok (serializes : tools.Serializes) (silent : tools.Silent)
    (request : Request) (elapsed : String) {outcome : Logged (Except Failure Tally)} {tally : Tally}
    (done : outcome.value = .ok tally) :
    ∃ text, request.response tools elapsed outcome = ⟨0, text, ""⟩ := by
  obtain ⟨text, reported⟩ := serializes.report request.settings.report tally elapsed
  have result : request.result tools elapsed outcome.value = .ok text := by
    rw [done]
    exact reported
  exact ⟨text, by simp [response, result, silent.join_log]⟩

theorem Request.response_of_error (silent : tools.Silent) (request : Request) (elapsed : String)
    {outcome : Logged (Except Failure Tally)} {failure : Failure}
    (failed : outcome.value = .error failure) :
    request.response tools elapsed outcome =
      ⟨1, "", "Error: " ++ failure.message ++ "\n"⟩ := by
  have result : request.result tools elapsed outcome.value = .error failure := by
    rw [failed]
    rfl
  simp [response, result, silent.join_log, toString]

/-- Nothing but the report depends on the request and the time. -/
theorem Request.response_alike (serializes : tools.Serializes) (silent : tools.Silent)
    (request other : Request) (elapsed later : String)
    (outcome : Logged (Except Failure Tally)) :
    (request.response tools elapsed outcome).code = (other.response tools later outcome).code ∧
      (request.response tools elapsed outcome).stderr =
        (other.response tools later outcome).stderr := by
  cases value : outcome.value with
  | ok tally =>
    obtain ⟨text, told⟩ := request.response_of_ok serializes silent elapsed value
    obtain ⟨otherText, otherTold⟩ := other.response_of_ok serializes silent later value
    rw [told, otherTold]
    exact ⟨rfl, rfl⟩
  | error failure =>
    rw [request.response_of_error silent elapsed value, other.response_of_error silent later value]
    exact ⟨rfl, rfl⟩

end Responses

section Runs

variable {tools : Tools} {timed : Timer} {arguments : List String}

theorem runOn_of_refusal {refusal : Refusal} (refused : tools.parse arguments = .error refusal)
    (machine : Machine) :
    runOn tools timed arguments machine =
      ((refusal.response tools.usage).code, machine.print (refusal.response tools.usage)) := by
  simp [runOn, run, refused]

theorem runOn_of_request {request : Request} (honest : timed.Honest)
    (asked : tools.parse arguments = .ok request) (machine : Machine) :
    let job := machine.packFile request.settings request.input request.output
    ∃ elapsed, runOn tools timed arguments machine =
      ((request.response tools elapsed job.1).code,
        job.2.print (request.response tools elapsed job.1)) := by
  obtain ⟨elapsed, took⟩ :=
    honest (packFile Machine.storage request.settings request.input request.output) machine
  refine ⟨elapsed, ?_⟩
  simp [runOn, run, asked, took, Machine.packFile]

end Runs

/-- An output that is the error stream shows there. -/
example :
    let files := FileSystem.fresh.set ["tmp", "work", "a"] (.file [5, 5, 5])
    let machine : Machine := { files }
    let timed : Timer := fun action => do return (← action, "1.00ms")
    let (code, after) := runOn standard timed ["a", "/dev/stderr", "--report=quiet"] machine
    code = 0 ∧ after.error.written = [0x85, 3] := by
  decide +kernel

end TilePack.Command
