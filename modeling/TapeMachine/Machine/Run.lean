import TapeMachine.Log
import TapeMachine.Machine.Basic

/-! # Runs

A run lets a machine work until it halts or its budget refuses the next instruction, and keeps what
happened on the way. A refused instruction leaves the machine as it was, so that a later run with a
larger budget goes on from there. -/

namespace TapeMachine
set_option autoImplicit false

/-! ## Events -/

/-- Something that happens in a run. -/
inductive Event where
  /-- An instruction was counted and is about to take effect. -/
  | dispatch (steps pc head : Nat) (i : Instruction)
  /-- A `debug` instruction shows the tape. -/
  | trace (s : Snapshot)
  /-- The machine halted. -/
  | halt (pc steps size : Nat)
  /-- The budget refused an instruction. -/
  | refuse (e : BudgetSpent)
  deriving DecidableEq, Repr

namespace Event

/-- The snapshot of a trace event. -/
def snapshot? : Event → Option Snapshot
  | trace s => some s
  | _ => none

/-- The log record of an event. A trace event goes to the tracer and not to the log. -/
def record? : Event → Option Log.Record
  | dispatch steps pc head i =>
    some ⟨.trace, "turmin_vm::execute",
      "step " ++ toString steps ++ " pc " ++ toString pc ++ " head " ++ toString head ++ ": "
        ++ i.text⟩
  | trace _ => none
  | halt pc steps size =>
    some ⟨.debug, "turmin_vm::execute",
      "halted at pc " ++ toString pc ++ " after " ++ toString steps ++ " steps, tape length "
        ++ toString size⟩
  | refuse e => some ⟨.debug, "turmin_vm::execute", e.message⟩

end Event

/-! ## Runs -/

/-- Whether a run goes on, and how it ended if it does not. -/
inductive Status where
  | running
  | halted
  | refused (e : BudgetSpent)
  deriving DecidableEq, Repr

/-- A machine at work: its state, what happened so far, and whether it goes on. -/
structure Run where
  machine : Machine
  events : Array Event
  status : Status
  deriving DecidableEq, Repr

namespace Run

/-- A run that takes up a machine. -/
def resume (m : Machine) : Run :=
  ⟨m, #[], .running⟩

/-- The events of performing an instruction, in order; `m` is the machine after it was charged. -/
def eventsOf (m : Machine) (i : Instruction) : List Event :=
  match i with
  | .debug => [.dispatch m.steps m.pc m.tape.head i, .trace m.snapshot]
  | _ => [.dispatch m.steps m.pc m.tape.head i]

/-- The run after one more instruction, or after its end is found. A run that ended stays. -/
def step (p : Program) (b : Budget) (r : Run) : Run :=
  match r.status with
  | .running =>
    match r.machine.action p b with
    | .perform i =>
      let charged := r.machine.charge i
      let events := eventsOf charged i
      { r with machine := charged.apply i, events := r.events ++ events }
    | .halt =>
      { r with
        events := r.events.push (.halt r.machine.pc r.machine.steps r.machine.tape.size)
        status := .halted }
    | .refuse e => { r with events := r.events.push (.refuse e), status := .refused e }
  | _ => r

/-- The run after at most `fuel` steps; it stops early when the run ends. -/
def advance (p : Program) (b : Budget) : Nat → Run → Run
  | 0, r => r
  | fuel + 1, r =>
    match r.status with
    | .running => advance p b fuel (r.step p b)
    | _ => r

/-- A run that ended stays. -/
theorem step_of_ended {p : Program} {b : Budget} {r : Run} (h : r.status ≠ .running) :
    r.step p b = r := by
  unfold step
  split
  · contradiction
  · rfl

theorem advance_of_ended {p : Program} {b : Budget} {r : Run} (h : r.status ≠ .running)
    (fuel : Nat) : r.advance p b fuel = r := by
  cases fuel with
  | zero => rfl
  | succ fuel =>
    unfold advance
    split
    · contradiction
    · rfl

/-- One more unit of fuel is one step before the others. -/
theorem advance_succ (p : Program) (b : Budget) (fuel : Nat) (r : Run) :
    r.advance p b (fuel + 1) = (r.step p b).advance p b fuel := by
  by_cases h : r.status = .running
  · rw [advance]
    simp [h]
  · rw [step_of_ended h, advance_of_ended h, advance_of_ended h]

/-- Fuel can be spent in two parts. -/
theorem advance_add (p : Program) (b : Budget) (m n : Nat) (r : Run) :
    r.advance p b (m + n) = (r.advance p b m).advance p b n := by
  induction m generalizing r with
  | zero => rw [Nat.zero_add]; rfl
  | succ m ih => rw [Nat.succ_add, advance_succ, advance_succ, ih]

/-- The snapshots that a run showed. -/
def snapshots (r : Run) : List Snapshot :=
  r.events.toList.filterMap Event.snapshot?

/-- The log records of a run. -/
def records (r : Run) : List Log.Record :=
  r.events.toList.filterMap Event.record?

/-- The result of a run that ended: the text of the final tape, or the refusal. -/
def result? (r : Run) : Option (Except BudgetSpent String) :=
  match r.status with
  | .running => none
  | .halted => some (.ok r.machine.tape.render)
  | .refused e => some (.error e)

end Run

/-- The run of a program on a fresh machine, as far as the fuel goes. -/
def Program.run (p : Program) (tape : Tape) (b : Budget) (fuel : Nat) : Run :=
  (Run.resume (.start tape)).advance p b fuel

end TapeMachine
