import Mathlib.Data.List.Forall2
import TapeMachine.Proofs.Machine.Budget

/-! # Stopping and resuming

A machine that one run leaves behind, halted or refused, can be taken up by the next run under
another budget. A stop changes nothing: just before it, the run stood with the same machine and
was still going, and a larger budget would have taken it to the same place. So a session of runs
does what one run under the largest of its budgets does, and the smaller budgets that come after a
larger one do nothing. -/

namespace TapeMachine
set_option autoImplicit false

/-! ## The order of budgets -/

namespace Budget

/-- No limit is above every limit. -/
protected def Le : Budget → Budget → Prop
  | _, unlimited => True
  | unlimited, atMost _ => False
  | atMost m, atMost n => m ≤ n

instance : LE Budget := ⟨Budget.Le⟩

theorem le_unlimited (b : Budget) : b ≤ unlimited := by
  cases b <;> exact trivial

theorem le_total (b c : Budget) : b ≤ c ∨ c ≤ b := by
  cases b with
  | unlimited => exact .inr (le_unlimited c)
  | atMost m =>
    cases c with
    | unlimited => exact .inl trivial
    | atMost n => exact Nat.le_total m n

theorem ofNat_le_ofNat {m n : Nat} : ofNat m ≤ ofNat n ↔ n = 0 ∨ 0 < m ∧ m ≤ n := by
  cases n with
  | zero => simp [ofNat, le_unlimited]
  | succ n =>
    cases m with
    | zero => exact iff_of_false (fun h => h) (by omega)
    | succ m =>
      have h : ofNat (m + 1) ≤ ofNat (n + 1) ↔ m + 1 ≤ n + 1 := Iff.rfl
      rw [h]
      omega

/-- The largest of some budgets given as numbers: zero, which sets no limit, if it is among
them. -/
def largest (ns : List Nat) : Nat :=
  if 0 ∈ ns then 0 else ns.foldr max 0

@[simp]
theorem largest_singleton (n : Nat) : largest [n] = n := by
  by_cases h : n = 0
  · simp [largest, h]
  · simp [largest, Ne.symm h]

theorem largest_of_mem {ns : List Nat} (h : 0 ∈ ns) : largest ns = 0 :=
  if_pos h

theorem largest_cons {n : Nat} {ns : List Nat} (hn : n ≠ 0) (h : 0 ∉ ns) :
    largest (n :: ns) = max n (largest ns) := by
  have hcons : 0 ∉ n :: ns := by simp [h, hn.symm]
  rw [largest, largest, if_neg h, if_neg hcons]
  rfl

theorem largest_pos {ns : List Nat} (hne : ns ≠ []) (h : 0 ∉ ns) : 0 < largest ns := by
  cases ns with
  | nil => exact absurd rfl hne
  | cons n ns =>
    simp only [List.mem_cons, not_or] at h
    rw [largest_cons (Ne.symm h.1) h.2]
    omega

theorem largest_cons_of_le {n : Nat} {ns : List Nat} (hne : ns ≠ [])
    (hle : ofNat n ≤ ofNat (largest ns)) : largest (n :: ns) = largest ns := by
  rw [ofNat_le_ofNat] at hle
  by_cases h : 0 ∈ ns
  · rw [largest_of_mem h, largest_of_mem (List.mem_cons_of_mem n h)]
  · have hpos := largest_pos hne h
    rw [largest_cons (by omega) h]
    omega

theorem largest_cons_of_ge {n : Nat} {ns : List Nat} (hne : ns ≠ [])
    (hle : ofNat (largest ns) ≤ ofNat n) : largest (n :: ns) = n := by
  rw [ofNat_le_ofNat] at hle
  by_cases hn : n = 0
  · rw [hn]
    exact largest_of_mem List.mem_cons_self
  · have h : 0 ∉ ns := by
      intro h
      rw [largest_of_mem h] at hle
      omega
    have hpos := largest_pos hne h
    rw [largest_cons hn h]
    omega

end Budget

variable {p : Program} {b c : Budget}

/-! ## The same step under a larger budget -/

namespace Machine

variable {m : Machine}

theorem spent?_eq_none_of_le (hle : b ≤ c) (h : m.spent? b = none) : m.spent? c = none := by
  cases c with
  | unlimited => rfl
  | atMost k =>
    cases b with
    | unlimited => exact absurd hle id
    | atMost n =>
      have hnk : n ≤ k := hle
      rw [spent?_atMost] at h ⊢
      split at h
      · cases h
      · rw [if_neg (by omega)]

theorem address_of_action_eq_refuse {e : BudgetSpent} (h : m.action p b = .refuse e) :
    e.address = m.pc := by
  have hs := (of_action_eq_refuse h).1
  cases b with
  | unlimited => cases hs
  | atMost n =>
    rw [spent?_atMost] at hs
    split at hs
    · injection hs with hs
      rw [← hs]
    · cases hs

theorem exists_refuse_of_le (hle : b ≤ c) {e : BudgetSpent} (h : m.action p c = .refuse e) :
    ∃ e', m.action p b = .refuse e' := by
  obtain ⟨hs, i, hi, hc⟩ := of_action_eq_refuse h
  cases hb : m.spent? b with
  | none =>
    rw [spent?_eq_none_of_le hle hb] at hs
    cases hs
  | some e' => exact ⟨e', action_of_spent?_eq_some hi hc hb⟩

/-- What is performed under a budget is performed under every larger one. -/
theorem action_perform_of_le (hle : b ≤ c) {i : Instruction} (h : m.action p b = .perform i) :
    m.action p c = .perform i := by
  have hb : ∀ e, m.action p b ≠ .refuse e := by simp [h]
  have hc : ∀ e, m.action p c ≠ .refuse e := by
    intro e he
    obtain ⟨e', he'⟩ := exists_refuse_of_le hle he
    exact hb e' he'
  rw [action_eq_unlimited hc, ← action_eq_unlimited hb, h]

end Machine

namespace Run

variable {r s s' : Run}

theorem running_of_running_step (h : (r.step p b).status = .running) :
    r.status = .running ∧ ∃ i, r.machine.action p b = .perform i := by
  obtain ⟨hr, hs⟩ | ⟨hr, i, hi, -⟩ | ⟨-, -, hs⟩ | ⟨-, e, -, hs⟩ := step_cases p b r
  · rw [hs] at h
    exact absurd h hr
  · exact ⟨hr, i, hi⟩
  · simp [hs] at h
  · simp [hs] at h

/-- As long as a run goes on, it is the run under every larger budget. -/
theorem advance_eq_of_le (hle : b ≤ c) {n : Nat} (h : (r.advance p b n).status = .running) :
    r.advance p c n = r.advance p b n := by
  induction n with
  | zero => rfl
  | succ n ih =>
    rw [advance_succ_last] at h
    obtain ⟨hr, i, hi⟩ := running_of_running_step h
    rw [advance_succ_last, advance_succ_last, ih hr, step_of_perform hr hi,
      step_of_perform hr (Machine.action_perform_of_le hle hi)]

/-! ## What happened before -/

/-- The run with something that happened before it. -/
def after (past : Array Event) (r : Run) : Run :=
  { r with events := past ++ r.events }

theorem after_resume (hr : r.status = .running) : (resume r.machine).after r.events = r := by
  obtain ⟨m, events, status⟩ := r
  cases hr
  simp [after, resume]

theorem snapshots_after (past r : Run) :
    (r.after past.events).snapshots = past.snapshots ++ r.snapshots := by
  simp [after, snapshots]

theorem step_after (past : Array Event) (r : Run) :
    (r.after past).step p b = (r.step p b).after past := by
  obtain ⟨hr, hs⟩ | ⟨hr, i, hi, hs⟩ | ⟨hr, hi, hs⟩ | ⟨hr, e, he, hs⟩ := step_cases p b r
  · rw [hs]
    exact step_of_ended hr
  · rw [hs, step_of_perform (r := r.after past) hr hi]
    simp [after, ← Array.toList_inj]
  · rw [hs, step_of_halt (r := r.after past) hr hi]
    simp [after]
  · rw [hs, step_of_refuse (r := r.after past) hr he]
    simp [after]

theorem advance_after (past : Array Event) (r : Run) (n : Nat) :
    (r.after past).advance p b n = (r.advance p b n).after past := by
  induction n with
  | zero => rfl
  | succ n ih => rw [advance_succ_last, advance_succ_last, ih, step_after]

/-! ## The moment before the end -/

/-- A run ends because its machine cannot go on: it has left the program, or the budget refuses the
next instruction. -/
def Settled (p : Program) (b : Budget) (s : Run) : Prop :=
  s.status = .halted ∧ s.machine.action p b = .halt ∨
    ∃ e, s.status = .refused e ∧ s.machine.action p b = .refuse e

/-- Just before its end, the run is still going and already has the final machine. -/
theorem Ends.exists_last (h : r.Ends p b s) (hr : r.status = .running) :
    s.Settled p b ∧ ∃ n, (r.advance p b n).status = .running ∧
      (r.advance p b n).machine = s.machine ∧ (r.advance p b n).snapshots = s.snapshots := by
  obtain ⟨hs, n, hn⟩ := h
  induction n with
  | zero =>
    rw [← hn] at hs
    exact absurd hr hs
  | succ n ih =>
    rw [advance_succ_last] at hn
    obtain ⟨-, h⟩ | ⟨-, i, -, h⟩ | ⟨hlast, ha, h⟩ | ⟨hlast, e, he, h⟩ :=
      step_cases p b (r.advance p b n)
    · exact ih (h.symm.trans hn)
    · rw [← hn, h] at hs
      exact absurd rfl hs
    · rw [← hn, h]
      exact ⟨.inl ⟨rfl, ha⟩, n, hlast, rfl, (snapshots_push _ rfl _).symm⟩
    · rw [← hn, h]
      exact ⟨.inr ⟨e, rfl, he⟩, n, hlast, rfl, (snapshots_push _ rfl _).symm⟩

theorem Settled.status_eq {n : Nat} (h : s.Settled p (.ofNat n)) :
    s.status = if s.machine.isHalted p then .halted else .refused ⟨n, s.machine.pc⟩ := by
  obtain ⟨hs, ha⟩ | ⟨e, hs, he⟩ := h
  · have hsize := Machine.action_eq_halt_iff.1 ha
    rw [hs, if_pos (by simpa [Machine.isHalted] using hsize)]
  · have hspent := (Machine.of_action_eq_refuse he).1
    have hsize : ¬ p.size ≤ s.machine.pc := by
      intro hsize
      rw [Machine.action_eq_halt_iff.2 hsize] at he
      cases he
    rw [Machine.spent?_ofNat] at hspent
    split at hspent
    · injection hspent with hspent
      rw [hs, if_neg (by simpa [Machine.isHalted] using hsize), hspent]
    · cases hspent

/-! ## Two runs in a row -/

/-- A run that is taken up under a larger budget goes on as if it had had that budget from the
start. -/
theorem Ends.resume_of_le (h : r.Ends p b s) (hr : r.status = .running) (hle : b ≤ c)
    (h' : (resume s.machine).Ends p c s') :
    ∃ u, r.Ends p c u ∧ u.machine = s'.machine ∧ u.snapshots = s.snapshots ++ s'.snapshots := by
  obtain ⟨-, n, hlast, hmachine, hsnapshots⟩ := h.exists_last hr
  obtain ⟨hs', k, hk⟩ := h'
  have hstart : r.advance p c n = (resume s.machine).after (r.advance p b n).events := by
    rw [advance_eq_of_le hle hlast, ← hmachine, after_resume hlast]
  refine ⟨s'.after (r.advance p b n).events, ⟨hs', n + k, ?_⟩, rfl, ?_⟩
  · rw [advance_add, hstart, advance_after, hk]
  · rw [snapshots_after, hsnapshots]

/-- A run that is taken up under a smaller budget does nothing. -/
theorem Ends.resume_of_ge (h : r.Ends p b s) (hr : r.status = .running) (hle : c ≤ b)
    (h' : (resume s.machine).Ends p c s') : s'.machine = s.machine ∧ s'.snapshots = [] := by
  obtain ⟨hsettled, -⟩ := h.exists_last hr
  have hstop : ∀ i, s.machine.action p c ≠ .perform i := by
    intro i hi
    have hi' := Machine.action_perform_of_le hle hi
    obtain ⟨-, ha⟩ | ⟨e, -, he⟩ := hsettled
    · simp [hi'] at ha
    · simp [hi'] at he
  obtain ⟨-, n, hlast, hmachine, hsnapshots⟩ := h'.exists_last rfl
  cases n with
  | zero => exact ⟨hmachine.symm, hsnapshots.symm⟩
  | succ n =>
    rw [advance_succ] at hlast
    have hstep : ((resume s.machine).step p c).status = .running := by
      by_contra hended
      rw [advance_of_ended hended] at hlast
      exact hended hlast
    obtain ⟨-, i, hi⟩ := running_of_running_step hstep
    exact absurd hi (hstop i)

end Run

/-! ## Machines that the unlimited run passes -/

namespace Program

variable {tape : Tape} {m : Machine} {s : Run}

theorem Ends.status_eq {budget : Nat} (h : p.Ends tape (.ofNat budget) s) :
    s.status = if s.machine.isHalted p then .halted else .refused ⟨budget, s.machine.pc⟩ :=
  (Run.Ends.exists_last h rfl).1.status_eq

/-- The unlimited run of `p` on the tape comes to the machine. -/
def Passes (p : Program) (tape : Tape) (m : Machine) : Prop :=
  ∃ n, (p.run tape .unlimited n).status = .running ∧ (p.run tape .unlimited n).machine = m

theorem passes_start (p : Program) (tape : Tape) : p.Passes tape (.start tape) :=
  ⟨0, rfl, rfl⟩

theorem Passes.ends (hm : p.Passes tape m) (h : (Run.resume m).Ends p b s) :
    p.Passes tape s.machine := by
  obtain ⟨n, hrunning, hmachine⟩ := hm
  obtain ⟨-, k, hlast, hk, -⟩ := h.exists_last rfl
  have heq : p.run tape .unlimited (n + k) =
      ((Run.resume m).advance p b k).after (p.run tape .unlimited n).events := by
    rw [← Run.advance_eq_of_le (Budget.le_unlimited b) hlast, ← Run.advance_after, ← hmachine,
      Run.after_resume hrunning]
    exact Run.advance_add p .unlimited n k _
  refine ⟨n + k, ?_, ?_⟩
  · rw [heq]
    exact hlast
  · rw [heq]
    exact hk

/-- A refused instruction is still the next one that the unlimited run charges. -/
theorem Passes.exists_charged {e : BudgetSpent} (h : p.Passes tape m)
    (he : m.action p b = .refuse e) :
    ∃ k, (p.run tape .unlimited k).machine = m ∧
      (p.run tape .unlimited (k + 1)).charged =
        (p.run tape .unlimited k).charged ++ [e.address] := by
  obtain ⟨k, hrunning, hk⟩ := h
  have hcharge : (p.run tape .unlimited k).AtCharge p := by
    refine ⟨hrunning, ?_⟩
    rw [hk]
    exact (Machine.of_action_eq_refuse he).2
  have hnext := Run.advance_succ_last p .unlimited k (.resume (.start tape))
  refine ⟨k, hk, ?_⟩
  rw [Machine.address_of_action_eq_refuse he, ← hk, ← hcharge.charged_step, run, hnext]
  rfl

end Program

/-! ## Sessions -/

/-- Runs of one machine under one budget after the other, each of them to its end. The numbers are
the budgets; the last machine is the one that the last run leaves behind. -/
inductive Session (p : Program) : Machine → List Nat → List Run → Machine → Prop
  | nil (m : Machine) : Session p m [] [] m
  | cons {m m' : Machine} {n : Nat} {ns : List Nat} {s : Run} {ss : List Run}
      (first : (Run.resume m).Ends p (.ofNat n) s) (rest : Session p s.machine ns ss m') :
      Session p m (n :: ns) (s :: ss) m'

namespace Session

variable {m m' : Machine} {tape : Tape} {ns : List Nat} {ss : List Run}

theorem ends_largest (h : Session p m ns ss m') (hne : ns ≠ []) :
    ∃ s, (Run.resume m).Ends p (.ofNat (Budget.largest ns)) s ∧ s.machine = m' ∧
      s.snapshots = ss.flatMap Run.snapshots := by
  induction h with
  | nil m => exact absurd rfl hne
  | @cons m m' n ns s ss first rest ih =>
    cases rest with
    | nil =>
      rw [Budget.largest_singleton]
      exact ⟨s, first, rfl, by simp⟩
    | cons second rest =>
      -- The later runs together are one run, taken up where the first one stopped.
      obtain ⟨s', hs', hmachine, hsnapshots⟩ := ih (by simp)
      obtain hle | hge := Budget.le_total (.ofNat n) (.ofNat (Budget.largest (_ :: _)))
      · obtain ⟨u, hu, humachine, husnapshots⟩ := first.resume_of_le rfl hle hs'
        rw [Budget.largest_cons_of_le (by simp) hle]
        refine ⟨u, hu, humachine.trans hmachine, ?_⟩
        rw [List.flatMap_cons, husnapshots, hsnapshots]
      · obtain ⟨hsame, hnone⟩ := first.resume_of_ge rfl hge hs'
        rw [Budget.largest_cons_of_ge (by simp) hge]
        refine ⟨s, first, hsame.symm.trans hmachine, ?_⟩
        rw [List.flatMap_cons, ← hsnapshots, hnone, List.append_nil]

theorem passes (h : Session p m ns ss m') (hm : p.Passes tape m) :
    ∀ s ∈ ss, p.Passes tape s.machine := by
  induction h with
  | nil m => simp
  | cons first rest ih =>
    have hs := hm.ends first
    intro s hmem
    obtain rfl | hmem := List.mem_cons.1 hmem
    · exact hs
    · exact ih hs s hmem

theorem settled (h : Session p m ns ss m') :
    List.Forall₂ (fun n s => s.Settled p (.ofNat n)) ns ss := by
  induction h with
  | nil m => exact .nil
  | cons first rest ih => exact .cons (first.exists_last rfl).1 ih

/-- A session on a fresh machine comes to what one run under the largest of its budgets comes to:
the same machine and the same snapshots in the same order. Each of its runs halts if it leaves the
machine halted, and otherwise is refused at the address of the machine; the refused instruction is
then the next one that the unlimited run, with the same machine, charges. -/
theorem eq_single_run {budgets : List Nat} {runs : List Run}
    (h : Session p (.start tape) budgets runs m) (hne : budgets ≠ []) :
    (∃ s, p.Ends tape (.ofNat (Budget.largest budgets)) s ∧ s.machine = m ∧
      s.snapshots = runs.flatMap Run.snapshots) ∧
    List.Forall₂ (fun budget s =>
      s.status = (if s.machine.isHalted p then .halted else .refused ⟨budget, s.machine.pc⟩) ∧
      ∀ e, s.status = .refused e →
        ∃ k, (p.run tape (.ofNat 0) k).machine = s.machine ∧
          (p.run tape (.ofNat 0) (k + 1)).charged =
            (p.run tape (.ofNat 0) k).charged ++ [e.address]) budgets runs := by
  refine ⟨h.ends_largest hne, ?_⟩
  have hpasses := h.passes (p.passes_start tape)
  have hsettled := h.settled
  rw [List.forall₂_iff_zip] at hsettled ⊢
  refine ⟨hsettled.1, ?_⟩
  intro budget s hmem
  have hs := hsettled.2 hmem
  refine ⟨hs.status_eq, ?_⟩
  intro e he
  obtain ⟨hhalted, -⟩ | ⟨e', he', ha⟩ := hs
  · rw [hhalted] at he
    cases he
  · have hee : e' = e := by
      rw [he'] at he
      injection he
    rw [← hee]
    exact (hpasses s (List.of_mem_zip hmem).2).exists_charged ha

/-- The second run of a session of three goes on where the first was refused, and the third, with
too small a budget, does nothing. -/
theorem eq_single_run_right_debug_left :
    let p := Program.ofList [.right, .debug, .left]
    ∃ runs m, Session p (.start .empty) [1, 2, 1] runs m ∧ runs.map Run.status =
        [.refused ⟨1, 2⟩, .halted, .halted] ∧
      ∃ s, p.Ends .empty (.ofNat 2) s ∧ s.machine = m ∧
        s.snapshots = runs.flatMap Run.snapshots := by
  intro p
  let first := (Run.resume (.start .empty)).advance p (.ofNat 1) 3
  let second := (Run.resume first.machine).advance p (.ofNat 2) 2
  let third := (Run.resume second.machine).advance p (.ofNat 1) 1
  have hfirst : (Run.resume (.start .empty)).Ends p (.ofNat 1) first := ⟨by decide, 3, rfl⟩
  have hsecond : (Run.resume first.machine).Ends p (.ofNat 2) second := ⟨by decide, 2, rfl⟩
  have hthird : (Run.resume second.machine).Ends p (.ofNat 1) third := ⟨by decide, 1, rfl⟩
  have h : Session p (.start .empty) [1, 2, 1] [first, second, third] third.machine :=
    .cons hfirst (.cons hsecond (.cons hthird (.nil _)))
  exact ⟨_, _, h, by decide, (eq_single_run h (by decide)).1⟩

end Session
end TapeMachine
