import TapeMachine.Program
import TapeMachine.Tape

/-! # The machine

A machine is a tape, the address of the next instruction, and two counters: the computational steps
charged so far and all instructions dispatched so far. A step budget limits the first counter; a
`debug` instruction is free. The machine halts when its address leaves the program. -/

namespace TapeMachine
set_option autoImplicit false

/-! ## Budgets -/

/-- How many computational steps a run may take. -/
inductive Budget where
  | unlimited
  | atMost (steps : Nat)
  deriving DecidableEq, Repr

namespace Budget

/-- The budget that a number stands for: zero sets no limit. -/
def ofNat : Nat → Budget
  | 0 => unlimited
  | n + 1 => atMost (n + 1)

end Budget

/-- The refusal of an instruction: the budget was used up when the machine reached the address. -/
structure BudgetSpent where
  budget : Nat
  address : Nat
  deriving DecidableEq, Repr

/-- The wording of the refusal. -/
def BudgetSpent.message (e : BudgetSpent) : String :=
  "maximal steps exceeded: budget of " ++ toString e.budget ++ " exhausted at instruction "
    ++ toString e.address

/-! ## States -/

/-- The state of a machine. -/
structure Machine where
  tape : Tape
  pc : Nat
  steps : Nat
  dispatched : Nat
  deriving DecidableEq, Repr

/-- What a `debug` instruction shows. -/
structure Snapshot where
  cells : Array Cell
  head : Nat
  step : Nat
  deriving DecidableEq, Repr

/-- What the tape of a snapshot shows, spaces at the ends included. -/
def Snapshot.display (s : Snapshot) : String :=
  String.ofList (s.cells.toList.map Cell.toChar)

/-- What a machine is about to do. -/
inductive Action where
  | perform (i : Instruction)
  | halt
  | refuse (e : BudgetSpent)
  deriving DecidableEq, Repr

namespace Machine

/-- The machine at the start of a program. -/
def start (tape : Tape) : Machine :=
  ⟨tape, 0, 0, 0⟩

/-- Whether the machine has left the program. -/
def isHalted (p : Program) (m : Machine) : Bool :=
  decide (p.size ≤ m.pc)

/-- The tape as it is now, with the number of instructions dispatched. -/
def snapshot (m : Machine) : Snapshot :=
  ⟨m.tape.cells, m.tape.head, m.dispatched⟩

/-- The refusal of a further computational step, once the budget is used up. -/
def spent? (b : Budget) (m : Machine) : Option BudgetSpent :=
  match b with
  | .unlimited => none
  | .atMost n => if n ≤ m.steps then some ⟨n, m.pc⟩ else none

/-- What the machine is about to do. Only a computational instruction can be refused. -/
def action (p : Program) (b : Budget) (m : Machine) : Action :=
  match p.get? m.pc with
  | none => .halt
  | some i =>
    if i.isComputational then
      match m.spent? b with
      | some e => .refuse e
      | none => .perform i
    else .perform i

/-- The machine after an instruction is counted and before it takes effect. -/
def charge (m : Machine) (i : Instruction) : Machine :=
  { m with
    steps := if i.isComputational then m.steps + 1 else m.steps
    dispatched := m.dispatched + 1 }

/-- The machine after an instruction takes effect. A jump compares the cell under the head with the
normal form of its operand. -/
def apply (m : Machine) (i : Instruction) : Machine :=
  match i with
  | .set value => { m with tape := m.tape.write value, pc := m.pc + 1 }
  | .right => { m with tape := m.tape.moveRight, pc := m.pc + 1 }
  | .left => { m with tape := m.tape.moveLeft, pc := m.pc + 1 }
  | .jump value target =>
    { m with pc := if m.tape.read = value.normalize then target else m.pc + 1 }
  | .debug => { m with pc := m.pc + 1 }

/-- The machine after it performs an instruction. -/
def perform (m : Machine) (i : Instruction) : Machine :=
  (m.charge i).apply i

/-! ## Counters -/

@[simp]
theorem apply_steps (m : Machine) (i : Instruction) : (m.apply i).steps = m.steps := by
  cases i <;> rfl

@[simp]
theorem apply_dispatched (m : Machine) (i : Instruction) :
    (m.apply i).dispatched = m.dispatched := by
  cases i <;> rfl

/-- Performing an instruction dispatches one. -/
theorem perform_dispatched (m : Machine) (i : Instruction) :
    (m.perform i).dispatched = m.dispatched + 1 := by
  simp [perform, charge]

/-- Performing an instruction charges a step unless it is `debug`. -/
theorem perform_steps (m : Machine) (i : Instruction) :
    (m.perform i).steps = if i = .debug then m.steps else m.steps + 1 := by
  cases i <;> simp [perform, charge, Instruction.isComputational, Instruction.opcode,
    Opcode.isComputational]

/-! ## Actions -/

/-- The machine halts exactly when it has left the program. -/
theorem action_eq_halt_iff {p : Program} {b : Budget} {m : Machine} :
    m.action p b = .halt ↔ p.size ≤ m.pc := by
  unfold action
  rw [← Program.get?_eq_none_iff]
  cases p.get? m.pc with
  | none => simp
  | some i =>
    simp only [reduceCtorEq, iff_false]
    split
    · split <;> simp
    · simp

/-- An instruction is performed only if the program holds it at the machine's address. -/
theorem get?_of_action {p : Program} {b : Budget} {m : Machine} {i : Instruction}
    (h : m.action p b = .perform i) : p.get? m.pc = some i := by
  unfold action at h
  cases hi : p.get? m.pc with
  | none => simp [hi] at h
  | some j =>
    simp only [hi] at h
    split at h
    · split at h
      · simp at h
      · injection h with h
        rw [h]
    · injection h with h
      rw [h]

end Machine
end TapeMachine
