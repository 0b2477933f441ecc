import TapeMachine.Cell

/-! # Tapes

A tape holds finitely many cells and a head that counts from the first of them. Every cell that is
not held is blank. The tape grows to the right when something is written past its end, and to the
left when the head moves left from the first cell, which then gets a new neighbour. -/

namespace TapeMachine
set_option autoImplicit false

/-- The held cells and the position of the head. The head may stand past the last held cell. -/
structure Tape where
  cells : Array Cell
  head : Nat
  deriving DecidableEq, Repr

namespace Tape

/-! ## Initial tapes -/

/-- A tape that holds nothing. -/
def empty : Tape := ⟨#[], 0⟩

instance : Inhabited Tape := ⟨empty⟩

/-- A tape that holds cells as they are, with the head on the first. -/
def holding (cells : List Cell) : Tape :=
  ⟨cells.toArray, 0⟩

/-- A tape that holds the normal forms of cells. -/
def ofCells (cells : List Cell) : Tape :=
  holding (cells.map Cell.normalize)

/-- A tape with one cell for each character; a space is a blank cell. -/
def ofString (text : String) : Tape :=
  holding (text.toList.map Cell.ofChar)

/-! ## Operations -/

/-- The number of cells that are held. -/
def size (t : Tape) : Nat :=
  t.cells.size

/-- Whether no cell is held. -/
def isEmpty (t : Tape) : Bool :=
  t.cells.isEmpty

/-- The cell at a position, blank where none is held. -/
def get (t : Tape) (i : Nat) : Cell :=
  t.cells.getD i .blank

/-- The cell under the head. -/
def read (t : Tape) : Cell :=
  t.get t.head

/-- The tape after the normal form of a cell is written under the head. -/
def write (t : Tape) (x : Cell) : Tape :=
  { t with cells := (t.cells.rightpad (t.head + 1) .blank).setIfInBounds t.head x.normalize }

/-- The tape after the head moves right. Nothing is added to the tape. -/
def moveRight (t : Tape) : Tape :=
  { t with head := t.head + 1 }

/-- The tape after the head moves left. From the first cell it moves to a new blank cell. -/
def moveLeft (t : Tape) : Tape :=
  match t.head with
  | 0 => { t with cells := #[.blank] ++ t.cells }
  | n + 1 => { t with head := n }

/-! ## Text -/

/-- The characters that the held cells show. -/
def chars (t : Tape) : List Char :=
  t.cells.toList.map Cell.toChar

/-- A list without the spaces at its two ends. -/
def trim (cs : List Char) : List Char :=
  ((cs.dropWhile (· == ' ')).reverse.dropWhile (· == ' ')).reverse

/-- What the tape shows, without the spaces at the two ends. -/
def render (t : Tape) : String :=
  String.ofList (trim t.chars)

/-! ## What an operation changes -/

theorem get_eq (t : Tape) (i : Nat) : t.get i = t.cells[i]?.getD .blank := by
  simp [get]

@[simp]
theorem head_write (t : Tape) (x : Cell) : (t.write x).head = t.head := rfl

@[simp]
theorem head_moveRight (t : Tape) : t.moveRight.head = t.head + 1 := rfl

@[simp]
theorem cells_moveRight (t : Tape) : t.moveRight.cells = t.cells := rfl

/-- Writing changes the cell under the head and no other. -/
theorem get_write (t : Tape) (x : Cell) (i : Nat) :
    (t.write x).get i = if i = t.head then x.normalize else t.get i := by
  simp only [get_eq, write, Array.rightpad, Array.getElem?_setIfInBounds, Array.size_append,
    Array.size_replicate, Array.getElem?_append, Array.getElem?_replicate]
  by_cases h : t.head = i
  · subst h
    have hsize : t.head < t.cells.size + (t.head + 1 - t.cells.size) := by omega
    simp [hsize]
  · by_cases hi : i < t.cells.size
    · simp [h, hi, Ne.symm h]
    · simp only [h, if_false, hi, Ne.symm h, Array.getElem?_eq_none (Nat.le_of_not_lt hi)]
      split <;> rfl

/-- Moving right changes no cell. -/
theorem get_moveRight (t : Tape) (i : Nat) : t.moveRight.get i = t.get i := rfl

/-- Moving left inside of the tape changes no cell. -/
theorem moveLeft_of_pos {t : Tape} (h : 0 < t.head) :
    t.moveLeft = { t with head := t.head - 1 } := by
  obtain ⟨cells, head⟩ := t
  cases head with
  | zero => simp at h
  | succ n => rfl

/-- Moving left from the first cell puts a blank cell before it. -/
theorem moveLeft_of_zero {t : Tape} (h : t.head = 0) :
    t.moveLeft = { t with cells := #[.blank] ++ t.cells } := by
  obtain ⟨cells, head⟩ := t
  subst h
  rfl

/-- The number of held cells grows just far enough to hold the cell under the head. -/
theorem size_write (t : Tape) (x : Cell) : (t.write x).size = max t.size (t.head + 1) := by
  simp only [size, write, Array.size_setIfInBounds, Array.rightpad, Array.size_append,
    Array.size_replicate]
  omega

end Tape
end TapeMachine
