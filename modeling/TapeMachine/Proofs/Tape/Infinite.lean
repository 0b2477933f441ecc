import Mathlib.Data.List.GetD
import TapeMachine.Proofs.Tape.Render

/-! # Tapes without ends

A tape that grows as it is needed stands for a tape with a cell at every integer. The positions of
the two differ by the number of times that the grown tape was extended to the left: each extension
moves the origin one cell to the right. Every other operation is the same on both, and what lies
beyond the held cells is blank on both. -/

namespace TapeMachine
set_option autoImplicit false

/-! ## Operations and initial tapes -/

/-- An operation on a tape. -/
inductive Tape.Op where
  | write (x : Cell)
  | right
  | left
  deriving DecidableEq, Repr

namespace Tape

/-- The tape after an operation. -/
def apply (t : Tape) : Op → Tape
  | .write x => t.write x
  | .right => t.moveRight
  | .left => t.moveLeft

/-- Whether an operation extends the tape to the left, as a number. -/
def extension (t : Tape) (op : Op) : Nat :=
  if op = .left ∧ t.head = 0 then 1 else 0

/-- How often operations, one after the other, extend the tape to the left. -/
def extensions (t : Tape) : List Op → Nat
  | [] => 0
  | op :: ops => t.extension op + (t.apply op).extensions ops

/-- The tapes that a machine can start with. -/
inductive Initial : Tape → Prop
  | empty : Initial empty
  | holding (cells : List Cell) : Initial (holding cells)
  | ofCells (cells : List Cell) : Initial (ofCells cells)
  | ofString (text : String) : Initial (ofString text)

theorem Initial.head_eq {t : Tape} (h : t.Initial) : t.head = 0 := by
  cases h <;> rfl

end Tape

/-! ## The infinite tape -/

/-- A cell at every integer, and a head. -/
structure InfiniteTape where
  cells : Int → Cell
  head : Int

namespace InfiniteTape

/-- The infinite tape with the cells of a tape from the origin on, and blank before it. -/
def ofTape (t : Tape) : InfiniteTape where
  cells
    | .ofNat i => t.get i
    | .negSucc _ => .blank
  head := 0

def apply (u : InfiniteTape) : Tape.Op → InfiniteTape
  | .write x => { u with cells := fun z => if z = u.head then x.normalize else u.cells z }
  | .right => { u with head := u.head + 1 }
  | .left => { u with head := u.head - 1 }

/-- The characters of `n` cells from a position on. -/
def chars (u : InfiniteTape) (start : Int) (n : Nat) : List Char :=
  (List.range n).map fun k : Nat => (u.cells (start + k)).toChar

/-- The text of the cells from the first to the last one that does not show a space; no text if
there is no such cell. -/
inductive Shows (u : InfiniteTape) : String → Prop
  | nothing (h : ∀ z, (u.cells z).toChar = ' ') : Shows u ""
  | between {first last : Int} (hfirst : (u.cells first).toChar ≠ ' ')
      (hlast : (u.cells last).toChar ≠ ' ')
      (hout : ∀ z, z < first ∨ last < z → (u.cells z).toChar = ' ') :
      Shows u (String.ofList (u.chars first (last - first + 1).toNat))

end InfiniteTape

/-! ## The tape stands for the infinite tape -/

namespace Tape

/-- The tape `t` stands for the infinite tape `u` with its origin at position `o`. -/
structure Follows (t : Tape) (o : Nat) (u : InfiniteTape) : Prop where
  head : (t.head : Int) = u.head + o
  get : ∀ i : Nat, t.get i = u.cells (i - o)
  left : ∀ z : Int, z < -o → u.cells z = .blank

variable {t : Tape} {o : Nat} {u : InfiniteTape}

theorem follows_ofTape (h : t.head = 0) : t.Follows 0 (.ofTape t) where
  head := by
    rw [h]
    rfl
  get i := by
    simp [InfiniteTape.ofTape]
  left z hz := by
    cases z with
    | ofNat i => exact absurd hz (by simp)
    | negSucc i => rfl

namespace Follows

theorem write (h : t.Follows o u) (x : Cell) : (t.write x).Follows o (u.apply (.write x)) where
  head := h.head
  get i := by
    have hhead := h.head
    have hiff : i = t.head ↔ (i : Int) - o = u.head := by omega
    rw [get_write, h.get]
    simp only [InfiniteTape.apply, hiff]
  left z hz := by
    have hhead := h.head
    have hne : z ≠ u.head := by omega
    simp only [InfiniteTape.apply, if_neg hne]
    exact h.left z hz

theorem moveRight (h : t.Follows o u) : t.moveRight.Follows o (u.apply .right) where
  head := by
    have hhead := h.head
    simp only [head_moveRight, InfiniteTape.apply]
    omega
  get := h.get
  left := h.left

theorem moveLeft_of_pos (h : t.Follows o u) (hpos : 0 < t.head) :
    t.moveLeft.Follows o (u.apply .left) := by
  rw [Tape.moveLeft_of_pos hpos]
  have hhead := h.head
  refine ⟨?_, h.get, h.left⟩
  simp only [InfiniteTape.apply]
  omega

theorem moveLeft_of_zero (h : t.Follows o u) (hzero : t.head = 0) :
    t.moveLeft.Follows (o + 1) (u.apply .left) := by
  rw [Tape.moveLeft_of_zero hzero]
  have hhead := h.head
  refine ⟨?_, ?_, ?_⟩
  · simp only [InfiniteTape.apply]
    omega
  · -- The new cell is the first that was left of all held cells.
    intro i
    cases i with
    | zero =>
      have hblank := h.left (((0 : Nat) : Int) - ((o + 1 : Nat) : Int)) (by omega)
      rw [InfiniteTape.apply, hblank, get_eq, Array.getElem?_append_left Nat.zero_lt_one]
      rfl
    | succ i =>
      have hpos : ((i + 1 : Nat) : Int) - ((o + 1 : Nat) : Int) = (i : Int) - o := by omega
      rw [InfiniteTape.apply, hpos, ← h.get i]
      simp [get_eq, Array.getElem?_append]
  · intro z hz
    exact h.left z (by omega)

/-- One operation keeps the tape in step with the infinite tape. -/
theorem apply (h : t.Follows o u) (op : Op) :
    (t.apply op).Follows (o + t.extension op) (u.apply op) := by
  cases op with
  | write x => exact h.write x
  | right => exact h.moveRight
  | left =>
    by_cases hzero : t.head = 0
    · have hone : t.extension .left = 1 := by simp [extension, hzero]
      rw [hone]
      exact h.moveLeft_of_zero hzero
    · have hnone : t.extension .left = 0 := by simp [extension, hzero]
      rw [hnone]
      exact h.moveLeft_of_pos (Nat.pos_of_ne_zero hzero)

theorem foldl (h : t.Follows o u) (ops : List Op) :
    (ops.foldl Tape.apply t).Follows (o + t.extensions ops) (ops.foldl InfiniteTape.apply u) := by
  induction ops generalizing t o u with
  | nil => exact h
  | cons op ops ih =>
    rw [List.foldl_cons, List.foldl_cons, extensions, ← Nat.add_assoc]
    exact ih (h.apply op)

/-! ## What the infinite tape holds and shows -/

theorem held (h : t.Follows o u) {z : Int} (hz : u.cells z ≠ .blank) :
    0 ≤ z + o ∧ z + o < t.size := by
  have hleft : ¬ z < -o := by
    intro hlt
    exact hz (h.left z hlt)
  obtain ⟨i, hi⟩ := Int.eq_ofNat_of_zero_le (show 0 ≤ z + o by omega)
  refine ⟨by omega, ?_⟩
  have hcell := h.get i
  have hpos : (i : Int) - o = z := by omega
  rw [hpos] at hcell
  have hlt : ¬ t.size ≤ i := by
    intro hle
    rw [get_eq, Array.getElem?_eq_none hle] at hcell
    exact hz hcell.symm
  omega

theorem read (h : t.Follows o u) : t.read = u.cells u.head := by
  have hpos : (t.head : Int) - o = u.head := by
    have hhead := h.head
    omega
  rw [Tape.read, h.get, hpos]

/-- The trimmed text stands somewhere on the infinite tape, with spaces all around it. -/
theorem exists_start (h : t.Follows o u) :
    ∃ start : Int, ∀ z, (u.cells z).toChar =
      if z < start then ' ' else (trim t.chars).getD (z - start).toNat ' ' := by
  obtain ⟨i, k, hchars⟩ := exists_spaces_trim t.chars
  refine ⟨i - o, ?_⟩
  intro z
  by_cases hleft : z < -o
  · rw [h.left z hleft, if_pos (by omega)]
    rfl
  · obtain ⟨j, hj⟩ := Int.eq_ofNat_of_zero_le (show 0 ≤ z + o by omega)
    have hpos : z = (j : Int) - o := by omega
    have hcell := toChar_get t j
    rw [hchars, getD_spaces_append, h.get, ← hpos] at hcell
    rw [hcell]
    by_cases hji : j < i
    · rw [if_pos hji, if_pos (by omega)]
    · have hoffset : (z - ((i : Int) - o)).toNat = j - i := by omega
      rw [if_neg hji, if_neg (by omega), hoffset]

theorem shows (h : t.Follows o u) : u.Shows t.render := by
  obtain ⟨start, hstart⟩ := h.exists_start
  have hhead := head?_trim t.chars
  have hlast := getLast?_trim t.chars
  rw [render]
  generalize trim t.chars = shown at hstart hhead hlast
  have hcell : ∀ k : Nat, (u.cells (start + k)).toChar = shown.getD k ' ' := by
    intro k
    have hoffset : (start + k - start).toNat = k := by omega
    rw [hstart, if_neg (by omega), hoffset]
  cases hlen : shown.length with
  | zero =>
    rw [List.length_eq_zero_iff] at hlen
    subst hlen
    refine .nothing ?_
    intro z
    rw [hstart]
    simp
  | succ n =>
    have hchars : u.chars start (start + n - start + 1).toNat = shown := by
      have hcount : (start + n - start + 1).toNat = shown.length := by omega
      apply List.ext_getElem
      · rw [InfiniteTape.chars, List.length_map, List.length_range, hcount]
      · intro k hk hk'
        simp only [InfiniteTape.chars, List.getElem_map, List.getElem_range, hcell,
          List.getD_eq_getElem _ _ hk']
    rw [← hchars]
    refine .between ?_ ?_ ?_
    · have hzero := hcell 0
      rw [List.head?_eq_getElem?, List.getElem?_eq_getElem (by omega)] at hhead
      rw [Int.natCast_zero, Int.add_zero, List.getD_eq_getElem _ _ (by omega)] at hzero
      rw [hzero]
      simpa using hhead
    · rw [List.getLast?_eq_getElem?, List.getElem?_eq_getElem (by omega)] at hlast
      rw [hcell, List.getD_eq_getElem _ _ (by omega)]
      simpa [hlen] using hlast
    · rintro z (hz | hz)
      · rw [hstart, if_pos hz]
      · rw [hstart, if_neg (by omega), List.getD_eq_default _ _ (by omega)]

end Follows

/-- After any operations, a tape stands for the infinite tape after the same operations: the heads
and the cells agree up to the number of extensions to the left, no cell outside of the held ones is
written, and the tape shows what the infinite tape shows. -/
theorem ops_follow_infinite {t : Tape} (h : t.Initial) (ops : List Op) :
    let real := ops.foldl apply t
    let ideal := ops.foldl InfiniteTape.apply (.ofTape t)
    let o := t.extensions ops
    (real.head : Int) = ideal.head + o ∧
    (∀ i : Nat, real.get i = ideal.cells (i - o)) ∧
    (∀ z, ideal.cells z ≠ .blank → 0 ≤ z + o ∧ z + o < real.size) ∧
    real.read = ideal.cells ideal.head ∧
    ideal.Shows real.render := by
  intro real ideal o
  have hfollows : real.Follows o ideal := by
    have hall := (follows_ofTape h.head_eq).foldl ops
    rw [Nat.zero_add] at hall
    exact hall
  exact ⟨hfollows.head, hfollows.get, fun z hz => hfollows.held hz, hfollows.read, hfollows.shows⟩

/-- A tape that was extended to the left twice and then written past its end. -/
theorem ops_follow_infinite_both_ends :
    let ops : List Op :=
      [.left, .left, .write (.mark 'a'), .right, .right, .right, .right, .write (.mark 'b')]
    let real := ops.foldl apply (ofString "x")
    let ideal := ops.foldl InfiniteTape.apply (.ofTape (ofString "x"))
    (ofString "x").Initial ∧ (ofString "x").extensions ops = 2 ∧
    real = ⟨#[.mark 'a', .blank, .mark 'x', .blank, .mark 'b'], 4⟩ ∧
    (∀ i : Nat, real.get i = ideal.cells (i - 2)) ∧ ideal.Shows "a x b" := by
  intro ops real ideal
  have hinitial : (ofString "x").Initial := .ofString "x"
  have htwo : (ofString "x").extensions ops = 2 := by cbv
  have hreal : real = ⟨#[.mark 'a', .blank, .mark 'x', .blank, .mark 'b'], 4⟩ := by cbv
  have hrender : real.render = "a x b" := by cbv
  obtain ⟨-, hget, -, -, hshows⟩ := ops_follow_infinite hinitial ops
  rw [htwo] at hget
  rw [← hrender]
  exact ⟨hinitial, htwo, hreal, hget, hshows⟩

end Tape
end TapeMachine
