import TapeMachine.Text.Quoted

/-! # Opcodes

The five operations, the marker character that introduces each of them in a program text, and the
characters that a program text reserves for labels and comments. -/

namespace TapeMachine
set_option autoImplicit false

/-- The operation of an instruction. -/
inductive Opcode where
  /-- Write a cell under the head. -/
  | set
  /-- Move the head one cell to the right. -/
  | right
  /-- Move the head one cell to the left. -/
  | left
  /-- Go to an address if the cell under the head has a given value. -/
  | jump
  /-- Show the tape. -/
  | debug
  deriving DecidableEq, Repr

namespace Opcode

/-- Every opcode, in the order in which the grammar lists them. -/
def all : List Opcode :=
  [set, right, left, jump, debug]

/-- The character that introduces the instruction in a program text. -/
def marker : Opcode → Char
  | set => 's'
  | right => 'r'
  | left => 'l'
  | jump => 'j'
  | debug => 'd'

/-- The number of the marker character. -/
def code (op : Opcode) : Nat :=
  op.marker.toNat

/-- The name used in messages. -/
def mnemonic : Opcode → String
  | set => "SET"
  | right => "RIGHT"
  | left => "LEFT"
  | jump => "JUMP"
  | debug => "DEBUG"

/-- Whether the operation counts as a step of the computation. -/
def isComputational : Opcode → Bool
  | debug => false
  | _ => true

/-- The opcode that a character introduces. -/
def ofMarker? (c : Char) : Option Opcode :=
  all.find? (·.marker = c)

/-- The refusal of a character that introduces no opcode. -/
structure UnknownMarker where
  found : Char
  deriving DecidableEq, Repr

/-- The wording of the refusal. -/
def UnknownMarker.message (e : UnknownMarker) : String :=
  "unknown marker " ++ Text.quoted e.found

/-- The opcode that a character introduces, or the refusal of the character. -/
def ofMarker (c : Char) : Except UnknownMarker Opcode :=
  match ofMarker? c with
  | some op => .ok op
  | none => .error ⟨c⟩

theorem mem_all (op : Opcode) : op ∈ all := by
  cases op <;> decide

@[simp]
theorem ofMarker?_marker (op : Opcode) : ofMarker? op.marker = some op := by
  cases op <;> decide

/-- A character introduces an opcode exactly when it is its marker. -/
theorem ofMarker?_eq_some_iff {c : Char} {op : Opcode} :
    ofMarker? c = some op ↔ op.marker = c := by
  constructor
  · intro h
    simpa using List.find?_some h
  · intro h
    rw [← h, ofMarker?_marker]

end Opcode

/-! ## Reserved characters -/

namespace Reserved

/-- Introduces a label declaration. -/
def label : Char := ':'

/-- Starts a comment. -/
def commentStart : Char := '/'

/-- Ends a comment before its line ends. -/
def commentEnd : Char := '\\'

end Reserved
end TapeMachine
