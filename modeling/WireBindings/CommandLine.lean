import WireBindings.CommandLine.Arguments
import WireBindings.CommandLine.Help
import WireBindings.Compilation.Files
import WireBindings.Trace

/-!
# The command line

A run of the program: from the arguments and the standard input to what is printed, the exit status
and the files that are left.
-/

namespace WireBindings.CommandLine

structure Outcome where
  status : Nat := 0
  output : String := ""
  errors : String := ""
  deriving DecidableEq, Repr

def Stop.outcome : Stop → Outcome
  | .help level => { output := level.help }
  | .refused level refusal =>
    { status := 2
      errors := level.usage ++ level.program ++ ": error: " ++ refusal.message ++ "\n" }

structure Job where
  task : Task
  inputs : List String
  given : Given
  deriving DecidableEq, Repr

namespace Job

def out (job : Job) : String := (job.given.value? .out).getD ""

def language? (job : Job) : Option Compilation.Language :=
  match job.task with
  | .java => some .java
  | .python => some .python
  | .check => none

def options (job : Job) (language : Compilation.Language) : Compilation.Options where
  target := language.name
  package := (job.given.value? .package).getD ""
  overloads :=
    match language, job.given.setting? .overloads with
    | .java, none => .named Plan.Overloads.tiered.name
    | .java, some none => .unnamed
    | .java, some (some name) => .named name
    | .python, _ => .ofTarget
  jackson := job.given.has .jackson

def announcement (job : Job) : String :=
  if job.out.isEmpty then ""
  else
    "Executing " ++ job.task.description ++ " with input " ++ ", ".intercalate job.inputs ++
      " and output " ++ job.out ++ "\n"

def checkPolicy : String := Plan.Overloads.tiered.name

def perform (job : Job) : Session String := do
  match job.language? with
  | some language =>
    let _ ← Compilation.compileFiles (job.options language) .never job.inputs job.out
    return ""
  | none =>
    let s ← Compilation.checkFiles checkPolicy job.inputs
    return s.text ++ "\n"

def trace (job : Job) (t : FileTree) : List Trace.Step :=
  match (Schema.load job.inputs t).1 with
  | .error _ => []
  | .ok d =>
    match job.language? with
    | none =>
      match Plan.Overloads.ofName checkPolicy with
      | .ok policy => Trace.planning policy d
      | .error _ => []
    | some language =>
      match (job.options language).forInputs job.inputs with
      | .error _ => []
      | .ok o =>
        Trace.compiling o d ++
          match (Compilation.compileFiles o .never job.inputs job.out t).1 with
          | .ok written => [.written written.length job.out]
          | .error _ => []

def footprint (job : Job) (t : FileTree) : List String :=
  match job.language? with
  | none => job.inputs
  | some language =>
    let compiled := do
      let o ← Session.ofExcept ((job.options language).forInputs job.inputs)
      let d ← Schema.load job.inputs
      Session.ofExcept (Compilation.compile o .never d)
    let staging := Path.join job.out (Output.stagingName 0)
    job.inputs ++ job.out ::
      match (compiled t).1 with
      | .error _ => []
      | .ok files =>
        files.flatMap fun file => [Path.join job.out file.path, Path.join staging file.path]

/-- Runs the job. A failure is reported on the standard output. -/
def run (verbose : Bool) (job : Job) : StateM FileTree Outcome := fun t =>
  let errors := String.join ((Trace.shown verbose (job.trace t)).map (· ++ "\n"))
  match job.perform t with
  | (.ok printed, t') => ({ output := job.announcement ++ printed, errors }, t')
  | (.error failure, t') =>
    let output := job.announcement ++ "Error:  " ++ failure.message ++ "\n"
    ({ status := 1, output, errors }, t')

end Job

def spool (path : String) (input : ByteArray) : Session Unit := do
  let text ← Session.ofExcept ((Text.readable input).mapError Failure.notText)
  Session.ofFiles (FileM.write path text.toUTF8)

/-- The job of a task. The standard input stands in at `path` if there are no input paths. -/
def jobOf (path : String) (task : Task) (given : Given) : Job where
  task := task
  inputs := if given.operands.isEmpty then [path] else given.operands
  given := given

def Outcome.failed (failure : Failure) : Outcome :=
  { status := 1, output := "Error:  " ++ failure.message ++ "\n" }

def notRemoved (path : String) (e : FileError) : String :=
  "Error: Could not delete temporary input file " ++ path ++ ". " ++ e.message ++ "\n"

def removeInput (path : String) (outcome : Outcome) : StateM FileTree Outcome := fun t =>
  match FileM.remove path t with
  | (.ok _, t') => (outcome, t')
  | (.error e, t') => ({ outcome with output := outcome.output ++ notRemoved path e }, t')

/-- Runs a job on the standard input, which is kept in a file at `path` for as long as the job runs.
-/
def Job.runOnInput (path : String) (input : ByteArray) (verbose : Bool) (job : Job) :
    StateM FileTree Outcome := fun t =>
  -- the file is there before the standard input is read
  match FileM.write path .empty t with
  | (.error e, t₁) => (.failed (.file e), t₁)
  | (.ok _, t₁) =>
    let (outcome, t₂) := match spool path input t₁ with
      | (.ok _, t₂) => job.run verbose t₂
      | (.error failure, t₂) => (.failed failure, t₂)
    removeInput path outcome t₂

/-- Runs a task, on the standard input if there are no input paths. -/
def runTask (path : String) (input : ByteArray) (verbose : Bool) (task : Task) (given : Given) :
    StateM FileTree Outcome :=
  let job := jobOf path task given
  if given.operands.isEmpty then job.runOnInput path input verbose else job.run verbose

def run (path : String) (arguments : List String) (input : ByteArray) : StateM FileTree Outcome :=
  match readArguments arguments with
  | .error stop => pure stop.outcome
  | .ok i =>
    if i.version then pure { output := versionText ++ "\n" }
    else
      match i.task with
      | none => pure { output := Level.top.help }
      | some (task, given) => runTask path input i.verbose task given

end WireBindings.CommandLine
