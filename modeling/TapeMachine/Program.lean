import TapeMachine.Instruction

/-! # Programs

A program is its instructions in address order. Labels no longer exist here. -/

namespace TapeMachine
set_option autoImplicit false

/-- A sequence of instructions; the address of an instruction is its index. -/
structure Program where
  code : Array Instruction
  deriving DecidableEq, Repr

namespace Program

instance : Inhabited Program := ⟨⟨#[]⟩⟩

/-- The program with the given instructions. -/
def ofList (is : List Instruction) : Program :=
  ⟨is.toArray⟩

/-- The instructions in address order. -/
def toList (p : Program) : List Instruction :=
  p.code.toList

/-- The number of instructions. -/
def size (p : Program) : Nat :=
  p.code.size

/-- Whether there is no instruction. -/
def isEmpty (p : Program) : Bool :=
  p.code.isEmpty

/-- The instruction at an address, or none once the address leaves the program. -/
def get? (p : Program) (address : Nat) : Option Instruction :=
  p.code[address]?

/-- The number of instructions that count as steps. -/
def computationalSize (p : Program) : Nat :=
  p.toList.countP (·.isComputational)

/-- Whether the program has no jump. -/
def isStraightLine (p : Program) : Bool :=
  !p.toList.any (·.isJump)

/-- The canonical spelling: each instruction spelled canonically, a space between neighbours. -/
def spelling (p : Program) : List Char :=
  [' '].intercalate (p.toList.map Instruction.spelling)

/-- The canonical text of a program. -/
def text (p : Program) : String :=
  String.ofList p.spelling

@[simp]
theorem toList_ofList (is : List Instruction) : (ofList is).toList = is := rfl

@[simp]
theorem ofList_toList (p : Program) : ofList p.toList = p := rfl

theorem size_eq_length (p : Program) : p.size = p.toList.length := by
  simp [size, toList]

theorem get?_eq_getElem? (p : Program) (address : Nat) :
    p.get? address = p.toList[address]? := by
  simp [get?, toList]

/-- An address holds no instruction exactly when it lies past the end. -/
theorem get?_eq_none_iff {p : Program} {address : Nat} :
    p.get? address = none ↔ p.size ≤ address := by
  simp [get?, size]

end Program
end TapeMachine
