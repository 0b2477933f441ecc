import TapeMachine.Command.Help
import TapeMachine.Command.Input
import TapeMachine.Interpret

/-! # Outcomes

What a request comes to: the exit code and the lines on the two output streams. A run is described
by its opening lines, the lines of its events, and its closing, so that it can be shown while it
goes on. -/

namespace TapeMachine.Command
set_option autoImplicit false

/-- Lines of text, each ended by a line feed. -/
def unlines (lines : List String) : String :=
  String.join (lines.map (· ++ "\n"))

/-- The exit code and the lines of the two output streams. -/
structure Outcome where
  code : Nat
  out : List String
  err : List String
  deriving DecidableEq, Repr, Inhabited

namespace Outcome

/-- The outcome of an invalid command line. -/
def invalid : Outcome := ⟨2, [], []⟩

/-- The whole standard output. -/
def outText (o : Outcome) : String :=
  unlines o.out

/-- The whole error output. -/
def errText (o : Outcome) : String :=
  unlines o.err

end Outcome

/-! ## Lines of the error output -/

/-- A snapshot as a line. -/
def snapshotLine (s : Snapshot) : String :=
  "step=" ++ toString s.step ++ " head=" ++ toString s.head ++ " |" ++ s.display ++ "|"

/-- The lines of the records that are logged. -/
def logLines (f : Log.Filter) (records : List Log.Record) : List String :=
  (records.filter f.passes).map Log.Record.line

/-- The lines of an event: its log record, or the snapshot when a trace is asked for. -/
def eventLines (f : Log.Filter) (trace : Bool) : Event → List String
  | .trace s => if trace then [snapshotLine s] else []
  | e => logLines f e.record?.toList

/-! ## Programs -/

/-- The report that the program of an input was read. -/
def loadRecord (path : String) (p : Program) : Log.Record where
  level := .info
  origin := "turmin::commands"
  message := path ++ ": " ++ toString p.size ++ " instructions"

/-- The program of a file argument together with the log lines, or the outcome if there is none.
`content` is what was read from the input. -/
def loadProgram (f : Log.Filter) (path : String) (content : Except ReadFailure String) :
    Except Outcome (Program × List String) :=
  match content with
  | .error e => .error ⟨1, [], [e.report (.ofPath path)]⟩
  | .ok text =>
    match Source.Assembly.ofText text with
    | .error e => .error ⟨1, [], ["error: " ++ e.message]⟩
    | .ok a => .ok (a.program, logLines f [a.record, loadRecord path a.program])

/-! ## Jobs -/

/-- A run that a request asks for. -/
structure RunJob where
  program : Program
  tape : Tape
  budget : Budget
  trace : Bool
  /-- The error output before the run. -/
  opening : List String

/-- What is left to do once the input is read. -/
inductive Job where
  | done (o : Outcome)
  | run (job : RunJob)

/-- The input that a request needs. -/
def Request.input? : Request → Option Input
  | help _ => none
  | run file _ _ _ => some (.ofPath file)
  | check file => some (.ofPath file)
  | disassemble file => some (.ofPath file)

/-- The job of a request. `content` is what was read from the input. -/
def Request.job (env : Environment) (content : Except ReadFailure String) : Request → Job
  | help topic => .done ⟨0, [topic.page env], []⟩
  | check file =>
    match loadProgram env.logged file content with
    | .error o => .done o
    | .ok (p, err) => .done ⟨0, ["OK: " ++ toString p.size ++ " instructions"], err⟩
  | disassemble file =>
    match loadProgram env.logged file content with
    | .error o => .done o
    | .ok (p, err) => .done ⟨0, [p.text], err⟩
  | run file tape maxSteps trace =>
    match loadProgram env.logged file content with
    | .error o => .done o
    | .ok (p, err) => .run ⟨p, .ofString tape, .ofNat maxSteps, trace, err⟩

/-- The exit code, the standard output and the last line of the error output of a run that
ended. -/
def closing : Except BudgetSpent String → Outcome
  | .ok text => ⟨0, [text], []⟩
  | .error e => ⟨3, [], ["runtime error: " ++ e.message]⟩

/-- The outcome of a run that ended. -/
def RunJob.outcome? (job : RunJob) (f : Log.Filter) (r : Run) : Option Outcome :=
  r.result?.map fun result =>
    let last := closing result
    { last with err := job.opening ++ r.events.toList.flatMap (eventLines f job.trace) ++ last.err }

/-- The outcome of a job; none if the fuel ends before the run. -/
def Job.outcome? (f : Log.Filter) (fuel : Nat) : Job → Option Outcome
  | done o => some o
  | run job => job.outcome? f (job.program.run job.tape job.budget fuel)

/-- The outcome of a request; none if the fuel ends before the run. -/
def Request.outcome? (env : Environment) (content : Except ReadFailure String) (fuel : Nat)
    (request : Request) : Option Outcome :=
  (request.job env content).outcome? env.logged fuel

/-- The outcome of a command line, when `read` reads the inputs. -/
def outcome? (env : Environment) (read : Input → Except ReadFailure String) (fuel : Nat)
    (arguments : List String) : Option Outcome :=
  match Request.ofArguments? env arguments with
  | none => some .invalid
  | some request =>
    match request.input? with
    | none => request.outcome? env (.ok "") fuel
    | some input => request.outcome? env (read input) fuel

end TapeMachine.Command
