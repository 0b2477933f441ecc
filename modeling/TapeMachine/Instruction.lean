import TapeMachine.Cell
import TapeMachine.Opcode

/-! # Instructions

What one place of a program does, and its canonical spelling: the marker, then the operand
character, then the target in decimal digits. -/

namespace TapeMachine
set_option autoImplicit false

/-- One place of a program. A jump target is an address in the program that holds the instruction
and may lie outside of it. -/
inductive Instruction where
  | set (value : Cell)
  | right
  | left
  | jump (value : Cell) (target : Nat)
  | debug
  deriving DecidableEq, Repr

namespace Instruction

/-- The operation of an instruction. -/
def opcode : Instruction → Opcode
  | set _ => .set
  | right => .right
  | left => .left
  | jump _ _ => .jump
  | debug => .debug

/-- Whether the instruction counts as a step of the computation. -/
def isComputational (i : Instruction) : Bool :=
  i.opcode.isComputational

/-- Whether the instruction is a jump. -/
def isJump (i : Instruction) : Bool :=
  i.opcode = .jump

/-- What follows the marker in the canonical spelling. -/
def arguments : Instruction → List Char
  | set value => [value.toChar]
  | jump value target => value.toChar :: Nat.toDigits 10 target
  | right | left | debug => []

/-- The canonical spelling. -/
def spelling (i : Instruction) : List Char :=
  i.opcode.marker :: i.arguments

/-- The canonical spelling as a text. -/
def text (i : Instruction) : String :=
  String.ofList i.spelling

@[simp]
theorem isComputational_eq_false_iff {i : Instruction} :
    i.isComputational = false ↔ i = debug := by
  cases i <;> simp [isComputational, opcode, Opcode.isComputational]

end Instruction
end TapeMachine
