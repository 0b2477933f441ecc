import Mathlib.Data.List.Forall2
import TapeMachine.Proofs.Machine.Budget
import TapeMachine.Proofs.Tape.Render

/-! # Blank cells at the end of a tape

A tape may hold blank cells at its end, or not hold them. The program cannot tell: a cell that is
not held reads blank, writing past the end of the shorter tape makes up for the missing blanks, and
an extension to the left puts the same cell before both. Two tapes that differ in blanks at the end
therefore stay so in every run, and the blanks are trimmed from the output
(`Program.trailing_spaces_inert`). -/

namespace TapeMachine
set_option autoImplicit false

variable {p : Program} {b : Budget}

/-! ## Padded tapes -/

/-- The cells `ys` are the cells `xs` and then only blank cells. -/
def Cell.Padded (xs ys : Array Cell) : Prop :=
  ∃ k, ys = xs ++ Array.replicate k .blank

theorem Cell.padded_iff {xs ys : Array Cell} :
    Padded xs ys ↔ xs.size ≤ ys.size ∧ ∀ i, ys.getD i .blank = xs.getD i .blank := by
  simp only [Array.getD_eq_getD_getElem?]
  constructor
  · rintro ⟨k, rfl⟩
    refine ⟨by simp, ?_⟩
    intro i
    rw [Array.getElem?_append, Array.getElem?_replicate]
    split
    · rfl
    · next hi =>
      rw [Array.getElem?_eq_none (Nat.le_of_not_lt hi)]
      split <;> rfl
  · rintro ⟨hsize, hget⟩
    refine ⟨ys.size - xs.size, ?_⟩
    apply Array.ext_getElem?
    intro i
    have hi := hget i
    rw [Array.getElem?_append, Array.getElem?_replicate]
    by_cases hys : i < ys.size
    · rw [Array.getElem?_eq_getElem hys, Option.getD_some] at hi
      rw [Array.getElem?_eq_getElem hys, hi]
      by_cases hxs : i < xs.size
      · rw [if_pos hxs, Array.getElem?_eq_getElem hxs, Option.getD_some]
      · rw [if_neg hxs, if_pos (by omega), Array.getElem?_eq_none (Nat.le_of_not_lt hxs)]
        rfl
    · rw [if_neg (by omega), if_neg (by omega), Array.getElem?_eq_none (Nat.le_of_not_lt hys)]

/-- The tape `u` is the tape `t` with blank cells held behind its end. -/
structure Tape.Padded (t u : Tape) : Prop where
  head : u.head = t.head
  cells : Cell.Padded t.cells u.cells

theorem Tape.padded_iff {t u : Tape} :
    t.Padded u ↔ u.head = t.head ∧ t.size ≤ u.size ∧ ∀ i, u.get i = t.get i := by
  constructor
  · intro h
    exact ⟨h.head, Cell.padded_iff.1 h.cells⟩
  · rintro ⟨hhead, hcells⟩
    exact ⟨hhead, Cell.padded_iff.2 hcells⟩

namespace Tape.Padded

variable {t u : Tape}

theorem read (h : t.Padded u) : u.read = t.read := by
  obtain ⟨hhead, -, hget⟩ := padded_iff.1 h
  rw [Tape.read, Tape.read, hhead, hget]

theorem write (h : t.Padded u) (x : Cell) : (t.write x).Padded (u.write x) := by
  obtain ⟨hhead, hsize, hget⟩ := padded_iff.1 h
  refine padded_iff.2 ⟨?_, ?_, ?_⟩
  · rw [head_write, head_write, hhead]
  · -- Past the end of `t` alone, the write fills in blanks that `u` holds already.
    rw [size_write, size_write, hhead]
    omega
  · intro i
    rw [get_write, get_write, hhead, hget]

theorem moveRight (h : t.Padded u) : t.moveRight.Padded u.moveRight where
  head := congrArg (· + 1) h.head
  cells := h.cells

theorem moveLeft (h : t.Padded u) : t.moveLeft.Padded u.moveLeft := by
  have hhead := h.head
  by_cases hzero : t.head = 0
  · obtain ⟨k, hk⟩ := h.cells
    rw [moveLeft_of_zero hzero, moveLeft_of_zero (hhead.trans hzero)]
    exact ⟨hhead, k, by rw [hk, Array.append_assoc]⟩
  · rw [moveLeft_of_pos (by omega), moveLeft_of_pos (by omega)]
    exact ⟨by rw [hhead], h.cells⟩

theorem render (h : t.Padded u) : u.render = t.render := by
  obtain ⟨k, hk⟩ := h.cells
  have hchars : u.chars = t.chars ++ List.replicate k ' ' := by
    simp [chars, hk]
  rw [Tape.render, Tape.render, hchars, trim_append_spaces]

end Tape.Padded

theorem Tape.padded_ofString (text : String) (k : Nat) :
    (ofString text).Padded (ofString (text ++ String.ofList (List.replicate k ' '))) where
  head := rfl
  cells := by
    refine ⟨k, ?_⟩
    simp [ofString, holding, Cell.ofChar, Cell.blankChar]

/-! ## Padded machines -/

/-- What `s` shows is what `r` shows, with blank cells at the end of the tape. -/
structure Snapshot.Padded (r s : Snapshot) : Prop where
  head : s.head = r.head
  step : s.step = r.step
  cells : Cell.Padded r.cells s.cells

structure Machine.Padded (m n : Machine) : Prop where
  tape : m.tape.Padded n.tape
  pc : n.pc = m.pc
  steps : n.steps = m.steps
  dispatched : n.dispatched = m.dispatched

namespace Machine.Padded

variable {m n : Machine}

theorem snapshot (h : m.Padded n) : m.snapshot.Padded n.snapshot where
  head := h.tape.head
  step := h.dispatched
  cells := h.tape.cells

theorem action (h : m.Padded n) : n.action p b = m.action p b := by
  have hspent : n.spent? b = m.spent? b := by
    simp only [spent?, h.pc, h.steps]
  rw [Machine.action, Machine.action, h.pc, hspent]

theorem charge (h : m.Padded n) (i : Instruction) : (m.charge i).Padded (n.charge i) where
  tape := h.tape
  pc := h.pc
  steps := by rw [Machine.charge, Machine.charge, h.steps]
  dispatched := congrArg (· + 1) h.dispatched

theorem apply (h : m.Padded n) (i : Instruction) : (m.apply i).Padded (n.apply i) := by
  have hnext : n.pc + 1 = m.pc + 1 := congrArg (· + 1) h.pc
  cases i with
  | set value => exact ⟨h.tape.write value, hnext, h.steps, h.dispatched⟩
  | right => exact ⟨h.tape.moveRight, hnext, h.steps, h.dispatched⟩
  | left => exact ⟨h.tape.moveLeft, hnext, h.steps, h.dispatched⟩
  | debug => exact ⟨h.tape, hnext, h.steps, h.dispatched⟩
  | jump value target =>
    refine ⟨h.tape, ?_, h.steps, h.dispatched⟩
    simp only [Machine.apply, h.tape.read, h.pc]

theorem perform (h : m.Padded n) (i : Instruction) : (m.perform i).Padded (n.perform i) :=
  (h.charge i).apply i

end Machine.Padded

/-! ## Padded runs -/

/-- The run `s` stands as the run `r`, with blank cells at the end of its tape and of every tape it
has shown. -/
structure Run.Padded (r s : Run) : Prop where
  machine : r.machine.Padded s.machine
  status : s.status = r.status
  snapshots : List.Forall₂ Snapshot.Padded r.snapshots s.snapshots

namespace Run.Padded

variable {r s : Run}

theorem resume {m n : Machine} (h : m.Padded n) : (Run.resume m).Padded (Run.resume n) where
  machine := h
  status := rfl
  snapshots := .nil

theorem step (h : r.Padded s) : (r.step p b).Padded (s.step p b) := by
  have haction := h.machine.action (p := p) (b := b)
  obtain ⟨hr, hs⟩ | ⟨hr, i, hi, hs⟩ | ⟨hr, hi, hs⟩ | ⟨hr, e, he, hs⟩ := step_cases p b r
  · have hended : s.status ≠ .running := by
      rw [h.status]
      exact hr
    rw [hs, step_of_ended hended]
    exact h
  · have hgoes : s.status = .running := h.status.trans hr
    rw [hi] at haction
    have hshown : List.Forall₂ Snapshot.Padded (r.step p b).snapshots (s.step p b).snapshots := by
      rw [snapshots_step_of_perform hr hi, snapshots_step_of_perform hgoes haction]
      refine List.rel_append h.snapshots ?_
      split
      · exact .cons (h.machine.charge i).snapshot .nil
      · exact .nil
    rw [hs, step_of_perform hgoes haction] at hshown ⊢
    exact ⟨h.machine.perform i, rfl, hshown⟩
  · rw [hi] at haction
    rw [hs, step_of_halt (h.status.trans hr) haction]
    refine ⟨h.machine, rfl, ?_⟩
    rw [snapshots_push r rfl, snapshots_push s rfl]
    exact h.snapshots
  · rw [he] at haction
    rw [hs, step_of_refuse (h.status.trans hr) haction]
    refine ⟨h.machine, rfl, ?_⟩
    rw [snapshots_push r rfl, snapshots_push s rfl]
    exact h.snapshots

theorem advance (h : r.Padded s) (n : Nat) : (r.advance p b n).Padded (s.advance p b n) := by
  induction n with
  | zero => exact h
  | succ n ih =>
    rw [advance_succ_last, advance_succ_last]
    exact ih.step

theorem result? (h : r.Padded s) : s.result? = r.result? := by
  rw [Run.result?, Run.result?, h.status, h.machine.tape.render]

end Run.Padded

/-- Spaces at the end of the initial tape make no difference: after any number of steps the run has
the same result, or none yet, stands at the same address with the same head and counters, and has
shown the same snapshots up to blank cells at the end of the tape. -/
theorem Program.trailing_spaces_inert (p : Program) (text : String) (k budget n : Nat) :
    let r := p.run (.ofString text) (.ofNat budget) n
    let s := p.run (.ofString (text ++ String.ofList (List.replicate k ' '))) (.ofNat budget) n
    s.result? = r.result? ∧ s.machine.pc = r.machine.pc ∧
      s.machine.tape.head = r.machine.tape.head ∧ s.machine.steps = r.machine.steps ∧
      s.machine.dispatched = r.machine.dispatched ∧
      List.Forall₂ Snapshot.Padded r.snapshots s.snapshots := by
  intro r s
  have hstart : (Machine.start (.ofString text)).Padded
      (.start (.ofString (text ++ String.ofList (List.replicate k ' ')))) :=
    ⟨Tape.padded_ofString text k, rfl, rfl, rfl⟩
  have h : r.Padded s := (Run.Padded.resume hstart).advance n
  exact ⟨h.result?, h.machine.pc, h.machine.tape.head, h.machine.steps, h.machine.dispatched,
    h.snapshots⟩

end TapeMachine
