import TapeMachine.Proofs.Machine.Termination
import TapeMachine.Proofs.Tape.Infinite

/-! # Machine words

The counters, the address and the head of a machine are words of 64 bits, and a sum that is too
large for a word is a fault. Under budgets there is no such fault: the budget bounds the charged
steps, each charged step moves the head and extends the tape by at most one cell, and an address is
only increased after an instruction was found at it. So a machine that computes with words does what
the machine does (`Program.arithmetic_in_range`), wherever its jumps lead. -/

namespace TapeMachine
set_option autoImplicit false

/-! ## Arithmetic with words -/

namespace Word

/-- The sum, unless it is too large for a word. -/
def add? (a b : Nat) : Option Nat :=
  if a + b < UInt64.size then some (a + b) else none

/-- The difference, unless it is below zero. -/
def sub? (a b : Nat) : Option Nat :=
  if b ≤ a then some (a - b) else none

theorem add?_of_lt {a b : Nat} (h : a + b < UInt64.size) : add? a b = some (a + b) :=
  if_pos h

theorem sub?_of_le {a b : Nat} (h : b ≤ a) : sub? a b = some (a - b) :=
  if_pos h

end Word

namespace Tape

variable {t : Tape}

/-- Writing, with the length of a tape that has to grow computed as a word. -/
def write? (t : Tape) (x : Cell) : Option Tape :=
  if t.size ≤ t.head then do
    let size ← Word.add? t.head 1
    return { t with cells := (t.cells.rightpad size .blank).setIfInBounds t.head x.normalize }
  else
    return { t with cells := t.cells.setIfInBounds t.head x.normalize }

def moveRight? (t : Tape) : Option Tape := do
  let head ← Word.add? t.head 1
  return { t with head }

def moveLeft? (t : Tape) : Option Tape :=
  if t.head = 0 then
    return { t with cells := #[.blank] ++ t.cells }
  else do
    let head ← Word.sub? t.head 1
    return { t with head }

theorem write?_eq (h : t.head + 1 < UInt64.size) (x : Cell) : t.write? x = some (t.write x) := by
  unfold write?
  by_cases hgrow : t.size ≤ t.head
  · rw [if_pos hgrow, Word.add?_of_lt h]
    rfl
  · have hnone : t.head + 1 - t.cells.size = 0 := by
      unfold size at hgrow
      omega
    rw [if_neg hgrow, write, Array.rightpad, hnone]
    simp

theorem moveRight?_eq (h : t.head + 1 < UInt64.size) : t.moveRight? = some t.moveRight := by
  rw [moveRight?, Word.add?_of_lt h]
  rfl

theorem moveLeft?_eq (t : Tape) : t.moveLeft? = some t.moveLeft := by
  unfold moveLeft?
  by_cases hzero : t.head = 0
  · rw [if_pos hzero, moveLeft_of_zero hzero]
    rfl
  · have hpos : 1 ≤ t.head := by omega
    rw [if_neg hzero, Word.sub?_of_le hpos, moveLeft_of_pos hpos]
    rfl

/-! ## How far one operation reaches -/

theorem head_moveLeft_le (t : Tape) : t.moveLeft.head ≤ t.head := by
  by_cases hzero : t.head = 0
  · rw [moveLeft_of_zero hzero]
  · rw [moveLeft_of_pos (by omega)]
    show t.head - 1 ≤ t.head
    omega

theorem size_moveLeft_le (t : Tape) : t.moveLeft.size ≤ t.size + 1 := by
  by_cases hzero : t.head = 0
  · rw [moveLeft_of_zero hzero]
    rw [size, Array.size_append]
    show 1 + t.size ≤ t.size + 1
    omega
  · rw [moveLeft_of_pos (by omega)]
    show t.size ≤ t.size + 1
    omega

end Tape

namespace Machine

variable {p : Program} {b : Budget} {m : Machine} {i : Instruction}

/-- Counting an instruction, with the charged steps as a word. The count of all instructions is
kept apart: no budget bounds it by a word. -/
def charge? (m : Machine) (i : Instruction) : Option Machine :=
  if i.isComputational then do
    let steps ← Word.add? m.steps 1
    return { m with steps, dispatched := m.dispatched + 1 }
  else
    return { m with dispatched := m.dispatched + 1 }

/-- The effect of an instruction, with the head and the address as words. -/
def effect? (m : Machine) (i : Instruction) : Option Machine :=
  match i with
  | .set value => do
    let tape ← m.tape.write? value
    let pc ← Word.add? m.pc 1
    return { m with tape, pc }
  | .right => do
    let tape ← m.tape.moveRight?
    let pc ← Word.add? m.pc 1
    return { m with tape, pc }
  | .left => do
    let tape ← m.tape.moveLeft?
    let pc ← Word.add? m.pc 1
    return { m with tape, pc }
  | .jump value target =>
    if m.tape.read = value.normalize then
      return { m with pc := target }
    else do
      let pc ← Word.add? m.pc 1
      return { m with pc }
  | .debug => do
    let pc ← Word.add? m.pc 1
    return { m with pc }

/-- Performing an instruction with words; none if a sum or a difference does not fit. -/
def perform? (m : Machine) (i : Instruction) : Option Machine := do
  let charged ← m.charge? i
  charged.effect? i

theorem charge?_eq (h : i.isComputational = true → m.steps + 1 < UInt64.size) :
    m.charge? i = some (m.charge i) := by
  unfold charge? charge
  by_cases hc : i.isComputational = true
  · rw [if_pos hc, if_pos hc, Word.add?_of_lt (h hc)]
    rfl
  · rw [if_neg hc, if_neg hc]
    rfl

theorem effect?_eq (hpc : m.pc + 1 < UInt64.size)
    (hhead : i.isComputational = true → m.tape.head + 1 < UInt64.size) :
    m.effect? i = some (m.apply i) := by
  have hnext := Word.add?_of_lt hpc
  cases i with
  | set value =>
    rw [effect?, Tape.write?_eq (hhead rfl), hnext]
    rfl
  | right =>
    rw [effect?, Tape.moveRight?_eq (hhead rfl), hnext]
    rfl
  | left =>
    rw [effect?, Tape.moveLeft?_eq, hnext]
    rfl
  | jump value target =>
    rw [effect?, apply, hnext]
    by_cases hread : m.tape.read = value.normalize
    · rw [if_pos hread, if_pos hread]
      rfl
    · rw [if_neg hread, if_neg hread]
      rfl
  | debug =>
    rw [effect?, hnext]
    rfl

/-- A charge pays for one more cell between the start of the tape and its end or the head. -/
theorem perform_reach (m : Machine) (i : Instruction) :
    (m.perform i).tape.head + m.steps ≤ m.tape.head + (m.perform i).steps ∧
    max (m.perform i).tape.size ((m.perform i).tape.head + 1) + m.steps ≤
      max m.tape.size (m.tape.head + 1) + (m.perform i).steps := by
  have hsteps := m.perform_steps i
  cases i with
  | set value =>
    have hsize := m.tape.size_write value
    have htape : (m.perform (.set value)).tape = m.tape.write value := rfl
    rw [htape, hsteps, if_neg (by simp), Tape.head_write, hsize]
    omega
  | right =>
    have htape : (m.perform .right).tape = m.tape.moveRight := rfl
    have hsize : m.tape.moveRight.size = m.tape.size := rfl
    rw [htape, hsteps, if_neg (by simp), Tape.head_moveRight, hsize]
    omega
  | left =>
    have htape : (m.perform .left).tape = m.tape.moveLeft := rfl
    have hhead := m.tape.head_moveLeft_le
    have hsize := m.tape.size_moveLeft_le
    rw [htape, hsteps, if_neg (by simp)]
    omega
  | jump value target =>
    have htape : (m.perform (.jump value target)).tape = m.tape := rfl
    rw [htape, hsteps, if_neg (by simp)]
    omega
  | debug =>
    have htape : (m.perform .debug).tape = m.tape := rfl
    rw [htape, hsteps, if_pos rfl]
    omega

/-! ## What budgets keep in range -/

/-- The range of a machine that started on a tape and was never charged more than a limit. -/
structure InRange (p : Program) (tape : Tape) (limit : Nat) (m : Machine) : Prop where
  steps_le : m.steps ≤ limit
  head_le : m.tape.head ≤ m.steps
  size_le : max m.tape.size (m.tape.head + 1) ≤ max tape.size 1 + m.steps
  pc_le : m.pc ≤ p.size ∨ ∃ value, .jump value m.pc ∈ p.toList

namespace InRange

variable {tape : Tape} {limit n : Nat}

theorem start (p : Program) (h : tape.Initial) (limit : Nat) :
    (start tape).InRange p tape limit := by
  have hhead : (Machine.start tape).tape.head = 0 := h.head_eq
  refine ⟨Nat.zero_le _, ?_, ?_, .inl (Nat.zero_le _)⟩
  · rw [hhead]
    exact Nat.zero_le _
  · rw [hhead]
    exact Nat.le_add_right _ _

theorem perform (h : m.InRange p tape limit) (hn : n ≤ limit)
    (hi : m.action p (.atMost n) = .perform i) : (m.perform i).InRange p tape limit := by
  obtain ⟨hhead, hsize⟩ := m.perform_reach i
  have hget := get?_of_action hi
  refine ⟨perform_steps_le hi hn h.steps_le, ?_, ?_, ?_⟩
  · have hle := h.head_le
    omega
  · have hle := h.size_le
    omega
  · obtain hnext | ⟨value, hjump⟩ := m.perform_pc i
    · have hlt := Program.lt_size_of_get? hget
      exact .inl (by omega)
    · rw [hjump, Program.get?_eq_getElem?] at hget
      exact .inr ⟨value, List.mem_of_getElem? hget⟩

theorem perform?_eq (h : m.InRange p tape limit) (hp : p.size < UInt64.size)
    (hlimit : limit < UInt64.size) (hn : n ≤ limit) (hi : m.action p (.atMost n) = .perform i) :
    m.perform? i = some (m.perform i) := by
  -- An instruction stands at the address, wherever the address comes from.
  have hlt := Program.lt_size_of_get? (get?_of_action hi)
  have hhead := h.head_le
  have hcharge : i.isComputational = true → m.steps + 1 < UInt64.size := by
    intro hc
    have hsteps := steps_lt_of_action hi hc
    omega
  have hpc : (m.charge i).pc + 1 < UInt64.size := by
    show m.pc + 1 < UInt64.size
    omega
  have hreach : i.isComputational = true → (m.charge i).tape.head + 1 < UInt64.size := by
    intro hc
    have hsteps := hcharge hc
    show m.tape.head + 1 < UInt64.size
    omega
  rw [perform?, charge?_eq hcharge]
  exact effect?_eq hpc hreach

end InRange
end Machine

/-! ## Whole sessions -/

section Sessions

variable {p : Program} {tape : Tape} {limit n : Nat} {m m' : Machine}

theorem Run.inRange_advance {r : Run} (h : r.machine.InRange p tape limit) (hn : n ≤ limit)
    (fuel : Nat) : (r.advance p (.atMost n) fuel).machine.InRange p tape limit :=
  machine_advance_invariant (fun _ _ hi hm => hm.perform hn hi) h fuel

theorem Session.inRange {ns : List Nat} {ss : List Run} (h : Session p m ns ss m')
    (hm : m.InRange p tape limit) (hns : ∀ n ∈ ns, 0 < n ∧ n ≤ limit) :
    m'.InRange p tape limit := by
  induction h with
  | nil m => exact hm
  | cons first rest ih =>
    obtain ⟨hpos, hle⟩ := hns _ List.mem_cons_self
    obtain ⟨-, k, rfl⟩ := first
    rw [Budget.ofNat_of_pos hpos] at ih
    exact ih (Run.inRange_advance hm hle k) fun n hn => hns n (List.mem_cons_of_mem _ hn)

end Sessions

/-- In every state that budgets above zero and up to a limit lead to, the charged steps are within
the limit, the head within the charged steps, the tape within its first length and the charged
steps, and the address within the program unless a jump set it. There a machine that computes with
words performs each instruction as the machine does. -/
theorem Program.arithmetic_in_range {p : Program} (hp : p.size < UInt64.size) {tape : Tape}
    (htape : tape.Initial) {limit : Nat} (hlimit : limit < UInt64.size) {budgets : List Nat}
    {runs : List Run} {m : Machine} (h : Session p (.start tape) budgets runs m)
    (hbudgets : ∀ budget ∈ budgets, 0 < budget ∧ budget ≤ limit) :
    m.InRange p tape limit ∧
    ∀ budget, 0 < budget → budget ≤ limit → ∀ n,
      let r := (Run.resume m).advance p (.ofNat budget) n
      r.machine.InRange p tape limit ∧
      ∀ i, r.machine.action p (.ofNat budget) = .perform i →
        r.machine.perform? i = some (r.machine.perform i) := by
  have hm := h.inRange (.start p htape limit) hbudgets
  refine ⟨hm, ?_⟩
  intro budget hpos hle
  rw [Budget.ofNat_of_pos hpos]
  intro n r
  have hr : r.machine.InRange p tape limit := Run.inRange_advance hm hle n
  exact ⟨hr, fun i hi => hr.perform?_eq hp hlimit hle hi⟩

/-- A session under the budgets two and four: the tape grows to the left, the head passes its end,
and a jump leads to the largest address there is. -/
theorem Program.arithmetic_in_range_last_address :
    let p := ofList [.left, .set (.mark 'x'), .right, .jump .blank (UInt64.size - 1)]
    ∃ runs m, Session p (.start .empty) [2] runs m ∧ m.InRange p .empty 4 ∧
      let r := fun n => (Run.resume m).advance p (.ofNat 4) n
      (r 1).machine.perform? (.jump .blank (UInt64.size - 1)) =
        some ((r 1).machine.perform (.jump .blank (UInt64.size - 1))) ∧
      (r 2).machine = ⟨⟨#[.mark 'x'], 1⟩, UInt64.size - 1, 4, 4⟩ ∧
      (r 2).machine.InRange p .empty 4 := by
  intro p
  let first := (Run.resume (.start .empty)).advance p (.ofNat 2) 3
  have hfirst : (Run.resume (.start .empty)).Ends p (.ofNat 2) first := ⟨by decide, 3, rfl⟩
  have h : Session p (.start .empty) [2] [first] first.machine := .cons hfirst (.nil _)
  have hlimit : 4 < UInt64.size := by decide
  obtain ⟨hm, hrun⟩ := arithmetic_in_range (p := p) (by decide) .empty hlimit h (by decide)
  have hfour := hrun 4 (by decide) (by decide)
  exact ⟨_, _, h, hm, (hfour 1).2 _ (by decide), by decide, (hfour 2).1⟩

end TapeMachine
