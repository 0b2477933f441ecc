import TapeMachine.Machine.Run
import TapeMachine.Source.Assembly

/-! # Interpretation

A program text is assembled and run in one go. -/

namespace TapeMachine
set_option autoImplicit false

/-- Why an interpretation has no output. -/
inductive Failure where
  /-- The text is not a program. -/
  | source (e : Source.Fault)
  /-- The program did not halt within the budget. -/
  | budget (e : BudgetSpent)
  deriving DecidableEq, Repr

/-- The wording of a failure. -/
def Failure.message : Failure → String
  | source e => e.message
  | budget e => e.message

/-- A program text at work: its assembly and the run so far. -/
structure Interpretation where
  assembly : Source.Assembly
  run : Run

namespace Interpretation

/-- The interpretation of a text on a tape, as far as the fuel goes. -/
def ofText (text : String) (tape : Tape) (b : Budget) (fuel : Nat) :
    Except Source.Fault Interpretation :=
  (Source.Assembly.ofText text).map fun a => ⟨a, a.program.run tape b fuel⟩

/-- The log records, those of the assembly first. -/
def records (x : Interpretation) : List Log.Record :=
  x.assembly.record :: x.run.records

end Interpretation

/-- The output of a program text on a tape, or the failure; none if the fuel ends first. -/
def interpret (text : String) (tape : Tape) (b : Budget) (fuel : Nat) :
    Option (Except Failure String) :=
  match Interpretation.ofText text tape b fuel with
  | .error e => some (.error (.source e))
  | .ok x => x.run.result?.map (Except.mapError .budget)

end TapeMachine
