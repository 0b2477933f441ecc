import TapeMachine.Proofs.Machine.Resume
import TapeMachine.Proofs.Source.Label

/-! # Walking the tokens

A list of tokens has a meaning of its own: a machine can walk it from token to token, skip the
label declarations, and look for the place of a jump target in the list itself. The program that
the tokens are resolved to does the same. Its addresses count the tokens that are not label
declarations, and its runs are the walks without the idle steps over declarations. -/

namespace TapeMachine.Source
set_option autoImplicit false

/-! ## Places -/

/-- The place of the `n`-th token that is not a label declaration, counted from zero; the end of
the list if there is none. -/
def instructionPlace : List Token → Nat → Nat
  | [], _ => 0
  | t :: ts, 0 => if t.hasInstruction then 0 else instructionPlace ts 0 + 1
  | t :: ts, n + 1 => instructionPlace ts (if t.hasInstruction then n else n + 1) + 1

/-- The place to which a jump leads. A name that is not declared leads to the end. -/
def Target.place (ts : List Token) : Target → Nat
  | address n => instructionPlace ts n
  | label name => (afterLabel? name ts).getD ts.length

theorem instructionsBefore_le (ts : List Token) (place : Nat) :
    instructionsBefore ts place ≤ (ts.filter Token.hasInstruction).length :=
  rank_le _ ts place

theorem instructionsBefore_instructionPlace (ts : List Token) (n : Nat) :
    instructionsBefore ts (instructionPlace ts n) =
      min n (ts.filter Token.hasInstruction).length := by
  induction ts generalizing n with
  | nil => simp [instructionPlace]
  | cons t ts ih =>
    -- A token with an instruction uses up one of the `n`, a label declaration none.
    cases ht : t.hasInstruction with
    | true => cases n <;> simp [instructionPlace, instructionsBefore_cons, ht, ih]
    | false => cases n <;> simp [instructionPlace, instructionsBefore_cons, ht, ih]

/-- The instructions before the place of a target are as many as its address says, unless the
address lies past the end. -/
theorem instructionsBefore_place {ts : List Token} {target : Target} {n : Nat}
    (h : target.resolve (Labels.ofTokens ts) = .ok n) :
    instructionsBefore ts (target.place ts) = min n (ts.filter Token.hasInstruction).length := by
  cases target with
  | address m =>
    injection h with h
    rw [← h]
    exact instructionsBefore_instructionPlace ts m
  | label name =>
    rw [Target.resolve, Labels.getElem?_ofTokens] at h
    rw [Target.place]
    cases hplace : afterLabel? name ts with
    | none => simp [hplace] at h
    | some place =>
      simp only [hplace, Option.map_some, Except.ok.injEq] at h
      have hle := instructionsBefore_le ts place
      rw [Option.getD_some]
      omega

theorem Token.eq_debug_iff {labels : Labels} {t : Token} {i : Instruction}
    (h : t.instruction? labels = .ok (some i)) : i = .debug ↔ t = .debug := by
  cases t with
  | set | right | left | debug =>
    cases h
    simp
  | label name => cases h
  | jump operand target =>
    rw [Token.instruction?] at h
    split at h
    · cases h
      simp
    · cases h

/-! ## Walks -/

/-- Whether a walk goes on, and how it ended if it does not. -/
inductive Walk.Status where
  | running
  | halted
  | refused
  deriving DecidableEq, Repr

/-- A walk along a list of tokens: the tape, the place of the next token, the computational steps
and all instructions so far, and the snapshots that were shown. -/
structure Walk where
  tape : Tape
  place : Nat
  steps : Nat
  dispatched : Nat
  shown : List Snapshot
  status : Walk.Status
  deriving DecidableEq, Repr

namespace Walk

def start (tape : Tape) : Walk :=
  ⟨tape, 0, 0, 0, [], .running⟩

/-- The walk after a token is counted as an instruction; `debug` is not a computational step. -/
def count (w : Walk) (t : Token) : Walk :=
  { w with
    steps := if t = .debug then w.steps else w.steps + 1
    dispatched := w.dispatched + 1 }

/-- The walk after a token takes effect. -/
def act (ts : List Token) (w : Walk) : Token → Walk
  | .set operand => { w with tape := w.tape.write (.ofChar operand), place := w.place + 1 }
  | .right => { w with tape := w.tape.moveRight, place := w.place + 1 }
  | .left => { w with tape := w.tape.moveLeft, place := w.place + 1 }
  | .jump operand target =>
    { w with place := if w.tape.read = .ofChar operand then target.place ts else w.place + 1 }
  | .debug =>
    { w with
      place := w.place + 1
      shown := w.shown ++ [⟨w.tape.cells, w.tape.head, w.dispatched⟩] }
  | .label _ => { w with place := w.place + 1 }

/-- The walk after one more token, or after its end is found. A label declaration is skipped at no
cost. A budget above zero refuses every further computational step once it is used up. -/
def step (ts : List Token) (budget : Nat) (w : Walk) : Walk :=
  match w.status with
  | .running =>
    match ts[w.place]? with
    | none => { w with status := .halted }
    | some t =>
      if t.hasInstruction = false then w.act ts t
      else if t ≠ .debug ∧ 0 < budget ∧ budget ≤ w.steps then { w with status := .refused }
      else (w.count t).act ts t
  | _ => w

/-- The walk on a tape ends as `w`. -/
def Ends (ts : List Token) (tape : Tape) (budget : Nat) (w : Walk) : Prop :=
  Rests (step ts budget) (fun w => w.status ≠ .running) (start tape) w

variable {ts : List Token} {budget : Nat} {w : Walk} {t : Token}

theorem step_of_ended (h : w.status ≠ .running) : w.step ts budget = w := by
  unfold step
  split
  · contradiction
  · rfl

theorem step_of_end (hw : w.status = .running) (ht : ts[w.place]? = none) :
    w.step ts budget = { w with status := .halted } := by
  simp [step, hw, ht]

theorem step_of_label (hw : w.status = .running) (ht : ts[w.place]? = some t)
    (hlabel : t.hasInstruction = false) : w.step ts budget = w.act ts t := by
  simp [step, hw, ht, hlabel]

theorem step_of_spent (hw : w.status = .running) (ht : ts[w.place]? = some t)
    (hinstr : t.hasInstruction = true) (hspent : t ≠ .debug ∧ 0 < budget ∧ budget ≤ w.steps) :
    w.step ts budget = { w with status := .refused } := by
  simp only [step, hw, ht, hinstr, if_pos hspent]
  rfl

theorem step_of_count (hw : w.status = .running) (ht : ts[w.place]? = some t)
    (hinstr : t.hasInstruction = true) (hspent : ¬ (t ≠ .debug ∧ 0 < budget ∧ budget ≤ w.steps)) :
    w.step ts budget = (w.count t).act ts t := by
  simp only [step, hw, ht, hinstr, if_neg hspent]
  rfl

@[simp]
theorem act_steps (ts : List Token) (w : Walk) (t : Token) : (w.act ts t).steps = w.steps := by
  cases t <;> rfl

@[simp]
theorem act_dispatched (ts : List Token) (w : Walk) (t : Token) :
    (w.act ts t).dispatched = w.dispatched := by
  cases t <;> rfl

@[simp]
theorem act_status (ts : List Token) (w : Walk) (t : Token) : (w.act ts t).status = w.status := by
  cases t <;> rfl

theorem count_act_jump_place (ts : List Token) (w : Walk) (t : Token) (operand : Char)
    (target : Target) :
    ((w.count t).act ts (.jump operand target)).place =
      if w.tape.read = .ofChar operand then target.place ts else w.place + 1 := rfl

theorem act_place_of_label (h : t.hasInstruction = false) :
    (w.act ts t).place = w.place + 1 := by
  obtain ⟨name, rfl⟩ := Token.exists_eq_label h
  rfl

theorem act_shown (ts : List Token) (w : Walk) (t : Token) :
    (w.act ts t).shown =
      w.shown ++ if t = .debug then [⟨w.tape.cells, w.tape.head, w.dispatched⟩] else [] := by
  cases t <;> simp [act]

/-- The status of a walk for the status of a run. -/
def Status.ofRun : TapeMachine.Status → Status
  | .running => .running
  | .halted => .halted
  | .refused _ => .refused

theorem Status.ofRun_eq_running {st : TapeMachine.Status} :
    Status.ofRun st = .running ↔ st = .running := by
  cases st <;> simp [ofRun]

end Walk

/-! ## A run tracks a walk -/

/-- The run `r` of the program that the tokens are resolved to is where the walk `w` is. The
address is that of the next instruction, or past the end if there is none. -/
structure Tracks (ts : List Token) (w : Walk) (r : Run) : Prop where
  tape : r.machine.tape = w.tape
  steps : r.machine.steps = w.steps
  dispatched : r.machine.dispatched = w.dispatched
  shown : r.snapshots = w.shown
  place : instructionsBefore ts w.place = min r.machine.pc (ts.filter Token.hasInstruction).length
  status : w.status = .ofRun r.status

namespace Tracks

variable {ts : List Token} {is : List Instruction} {budget : Nat} {w : Walk} {r : Run}
  {t : Token} {i : Instruction}

theorem running_iff (h : Tracks ts w r) : w.status = .running ↔ r.status = .running := by
  rw [h.status, Walk.Status.ofRun_eq_running]

theorem step_label (h : Tracks ts w r) (ht : ts[w.place]? = some t)
    (hlabel : t.hasInstruction = false) : Tracks ts (w.act ts t) r := by
  obtain ⟨name, rfl⟩ := Token.exists_eq_label hlabel
  have hnext : instructionsBefore ts (w.place + 1) = instructionsBefore ts w.place :=
    rank_succ ht
  exact ⟨h.tape, h.steps, h.dispatched, h.shown, hnext.trans h.place, h.status⟩

/-- At a token that has an instruction, the address is that of the instruction. -/
theorem pc_eq (h : Tracks ts w r) (ht : ts[w.place]? = some t)
    (hinstr : t.hasInstruction = true) : r.machine.pc = instructionsBefore ts w.place := by
  have hlt := rank_lt ht hinstr
  have hplace := h.place
  rw [instructionsBefore] at hplace ⊢
  omega

/-- A token and its instruction do the same to the tape and lead to places that correspond. -/
theorem effect (h : Tracks ts w r) (ht : ts[w.place]? = some t)
    (hi : t.instruction? (Labels.ofTokens ts) = .ok (some i)) :
    (r.machine.perform i).tape = ((w.count t).act ts t).tape ∧
      instructionsBefore ts ((w.count t).act ts t).place =
        min (r.machine.perform i).pc (ts.filter Token.hasInstruction).length := by
  have hinstr : t.hasInstruction = true := Token.hasInstruction_of_instruction? hi
  have hnext : instructionsBefore ts (w.place + 1) =
      min (r.machine.pc + 1) (ts.filter Token.hasInstruction).length := by
    have hsucc : instructionsBefore ts (w.place + 1) = instructionsBefore ts w.place + 1 := by
      rw [instructionsBefore, rank_succ ht, if_pos hinstr]
      rfl
    have hle := instructionsBefore_le ts (w.place + 1)
    have hpc := h.pc_eq ht hinstr
    omega
  cases t with
  | set operand =>
    cases hi
    exact ⟨congrArg (·.write (.ofChar operand)) h.tape, hnext⟩
  | right =>
    cases hi
    exact ⟨congrArg Tape.moveRight h.tape, hnext⟩
  | left =>
    cases hi
    exact ⟨congrArg Tape.moveLeft h.tape, hnext⟩
  | debug =>
    cases hi
    exact ⟨h.tape, hnext⟩
  | label name => cases hi
  | jump operand target =>
    rw [Token.instruction?] at hi
    split at hi
    · next n hn =>
      cases hi
      refine ⟨h.tape, ?_⟩
      rw [Machine.perform_jump_pc, Cell.normalize_ofChar, h.tape, Walk.count_act_jump_place]
      by_cases hread : w.tape.read = .ofChar operand
      · rw [if_pos hread, if_pos hread]
        exact instructionsBefore_place hn
      · rw [if_neg hread, if_neg hread]
        exact hnext
    · cases hi

theorem perform (h : Tracks ts w r) {p : Program} (hr : r.status = .running)
    (ht : ts[w.place]? = some t) (hi : t.instruction? (Labels.ofTokens ts) = .ok (some i))
    (ha : r.machine.action p (.ofNat budget) = .perform i) :
    Tracks ts ((w.count t).act ts t) (r.step p (.ofNat budget)) := by
  have hdebug := Token.eq_debug_iff hi
  obtain ⟨htape, hplace⟩ := h.effect ht hi
  have hshown := Run.snapshots_step_of_perform hr ha
  rw [Run.step_of_perform hr ha] at hshown ⊢
  refine ⟨htape, ?_, ?_, ?_, hplace, ?_⟩
  · simp only [Machine.perform_steps, Walk.act_steps, Walk.count, hdebug, h.steps]
  · simp only [Machine.perform_dispatched, Walk.act_dispatched, Walk.count, h.dispatched]
  · rw [hshown, Walk.act_shown, h.shown]
    simp only [Machine.snapshot, Machine.charge, Walk.count, hdebug, h.tape, h.dispatched]
  · rw [Walk.act_status]
    exact h.running_iff.2 hr

theorem step_instruction (h : Tracks ts w r) {p : Program} (hr : r.status = .running)
    (ht : ts[w.place]? = some t) (hi : t.instruction? (Labels.ofTokens ts) = .ok (some i))
    (hp : p.get? r.machine.pc = some i) :
    Tracks ts (w.step ts budget) (r.step p (.ofNat budget)) := by
  have hw := h.running_iff.2 hr
  have hinstr : t.hasInstruction = true := Token.hasInstruction_of_instruction? hi
  have hdebug := Token.eq_debug_iff hi
  have hspent := r.machine.spent?_ofNat budget
  rw [h.steps] at hspent
  by_cases hrefused : t ≠ .debug ∧ 0 < budget ∧ budget ≤ w.steps
  · have hc : i.isComputational = true := by
      rw [← Bool.not_eq_false, Instruction.isComputational_eq_false_iff, hdebug]
      exact hrefused.1
    rw [if_pos hrefused.2] at hspent
    rw [Walk.step_of_spent hw ht hinstr hrefused,
      Run.step_of_refuse hr (Machine.action_of_spent?_eq_some hp hc hspent)]
    refine ⟨h.tape, h.steps, h.dispatched, ?_, h.place, rfl⟩
    rw [Run.snapshots_push r rfl]
    exact h.shown
  · have ha : r.machine.action p (.ofNat budget) = .perform i := by
      by_cases hfree : t = .debug
      · rw [hdebug.2 hfree] at hp ⊢
        exact Machine.action_debug hp
      · rw [if_neg (fun hover => hrefused ⟨hfree, hover⟩)] at hspent
        exact Machine.action_of_spent?_eq_none hp hspent
    rw [Walk.step_of_count hw ht hinstr hrefused]
    exact h.perform hr ht hi ha

theorem step_end (h : Tracks ts w r) (hr : r.status = .running) (hparse : parse ts = .ok is)
    (ht : ts[w.place]? = none) :
    Tracks ts (w.step ts budget) (r.step (Program.ofList is) (.ofNat budget)) := by
  have hlen := (forall₂_of_resolve hparse).length_eq
  have hend : instructionsBefore ts w.place = (ts.filter Token.hasInstruction).length :=
    rank_of_length_le (List.getElem?_eq_none_iff.1 ht)
  have hpc : (Program.ofList is).size ≤ r.machine.pc := by
    have hplace := h.place
    rw [Program.size_eq_length, Program.toList_ofList]
    omega
  rw [Walk.step_of_end (h.running_iff.2 hr) ht,
    Run.step_of_halt hr (Machine.action_eq_halt_iff.2 hpc)]
  refine ⟨h.tape, h.steps, h.dispatched, ?_, h.place, rfl⟩
  rw [Run.snapshots_push r rfl]
  exact h.shown

end Tracks

/-- The run of the parsed program goes with the walk along the tokens, which takes idle steps over
label declarations. -/
theorem stutters_walk {ts : List Token} {is : List Instruction} (hparse : parse ts = .ok is)
    (budget : Nat) :
    Stutters (Walk.step ts budget) (Run.step (Program.ofList is) (.ofNat budget)) (Tracks ts)
      (fun w => ts.length - w.place) := by
  intro w r h
  by_cases hr : r.status = .running
  · have hw := h.running_iff.2 hr
    cases ht : ts[w.place]? with
    | none => exact .inl (h.step_end hr hparse ht)
    | some t =>
      cases hinstr : t.hasInstruction with
      | false =>
        rw [Walk.step_of_label hw ht hinstr]
        refine .inr ⟨h.step_label ht hinstr, ?_⟩
        -- Skipping a declaration leaves fewer tokens to skip.
        obtain ⟨hlt, -⟩ := List.getElem?_eq_some_iff.1 ht
        show ts.length - (w.act ts t).place < ts.length - w.place
        rw [Walk.act_place_of_label hinstr]
        omega
      | true =>
        obtain ⟨i, hi, hget⟩ := getElem?_of_resolve hparse ht hinstr
        have hp : (Program.ofList is).get? r.machine.pc = some i := by
          rw [Program.get?_eq_getElem?, h.pc_eq ht hinstr]
          exact hget
        exact .inl (h.step_instruction hr ht hi hp)
  · have hw : w.status ≠ .running := fun hw => hr (h.running_iff.1 hw)
    rw [Walk.step_of_ended hw, Run.step_of_ended hr]
    exact .inl h

/-! ## Whole walks -/

/-- The walk along tokens and the run of the program they are resolved to both go on for ever, or
both end with the same tape, the same number of steps and the same snapshots: both halted, or both
refused, and then the address is the number of instructions before the refused token. -/
theorem run_parse_walk {ts : List Token} {is : List Instruction} (hparse : parse ts = .ok is)
    (tape : Tape) (budget : Nat) :
    (¬ ∃ w, Walk.Ends ts tape budget w) ∧
      (¬ ∃ s, (Program.ofList is).Ends tape (.ofNat budget) s) ∨
    ∃ w s, Walk.Ends ts tape budget w ∧ (Program.ofList is).Ends tape (.ofNat budget) s ∧
      s.machine.tape = w.tape ∧ s.machine.steps = w.steps ∧ s.snapshots = w.shown ∧
      (w.status = .halted ∧ s.result? = some (.ok w.tape.render) ∨
        w.status = .refused ∧
          s.result? = some (.error ⟨budget, instructionsBefore ts w.place⟩)) := by
  have hstart : Tracks ts (.start tape) (.resume (.start tape)) :=
    ⟨rfl, rfl, rfl, rfl, by simp [Walk.start, Run.resume, Machine.start], rfl⟩
  have hdone : ∀ w r, Tracks ts w r → (w.status ≠ .running ↔ r.status ≠ .running) := by
    intro w r h
    exact not_congr h.running_iff
  have hrests := (stutters_walk hparse budget).rests hdone hstart
  simp only [← Run.ends_iff_rests] at hrests
  obtain hnone | ⟨w, s, hw, hs, h⟩ := hrests
  · exact .inl hnone
  · refine .inr ⟨w, s, hw, hs, h.tape, h.steps, h.shown, ?_⟩
    have hstatus := Program.Ends.status_eq hs
    have hwalk := h.status
    by_cases hhalted : s.machine.isHalted (Program.ofList is)
    · rw [if_pos hhalted] at hstatus
      rw [hstatus] at hwalk
      refine .inl ⟨hwalk, ?_⟩
      rw [Run.result?, hstatus, h.tape]
    · have hpc : instructionsBefore ts w.place = s.machine.pc := by
        have hlen := (forall₂_of_resolve hparse).length_eq
        have hplace := h.place
        simp only [Machine.isHalted, Program.size_eq_length, Program.toList_ofList,
          decide_eq_true_eq] at hhalted
        omega
      rw [if_neg hhalted] at hstatus
      rw [hstatus] at hwalk
      refine .inr ⟨hwalk, ?_⟩
      rw [Run.result?, hstatus, hpc]

/-- A jump to a name that is declared twice, and then a jump past the end. -/
theorem run_parse_walk_declared_twice :
    let ts : List Token :=
      [.label "01", .jump ' ' (.label "01"), .set 'x', .debug, .label "01", .set 'y', .debug,
        .jump 'y' (.address 9), .left]
    let is : List Instruction :=
      [.jump .blank 3, .set (.mark 'x'), .debug, .set (.mark 'y'), .debug, .jump (.mark 'y') 9,
        .left]
    parse ts = .ok is ∧
    ∃ w, Walk.Ends ts .empty 3 w ∧ w.status = .halted ∧ w.tape = ⟨#[.mark 'y'], 0⟩ ∧
      w.steps = 3 ∧ w.shown = [⟨#[.mark 'y'], 0, 3⟩] := by
  intro ts is
  have hparse : parse ts = .ok is := by cbv
  refine ⟨hparse, ?_⟩
  let final := (Program.ofList is).run .empty (.ofNat 3) 5
  have hends : (Program.ofList is).Ends .empty (.ofNat 3) final := ⟨by decide, 5, rfl⟩
  have hmachine : final.machine = ⟨⟨#[.mark 'y'], 0⟩, 9, 3, 4⟩ := by decide
  have hsnapshots : final.snapshots = [⟨#[.mark 'y'], 0, 3⟩] := by decide
  have hstop : final.status = .halted := by decide
  obtain ⟨-, hnone⟩ | ⟨w, s, hw, hs, htape, hsteps, hshown, hstatus⟩ :=
    run_parse_walk hparse .empty 3
  · exact absurd ⟨_, hends⟩ hnone
  · have heq : final = s := Run.Ends.unique hends hs
    rw [← heq] at htape hsteps hshown hstatus
    rw [hmachine] at htape hsteps
    rw [hsnapshots] at hshown
    refine ⟨w, hw, ?_, htape.symm, hsteps.symm, hshown.symm⟩
    obtain ⟨hhalted, -⟩ | ⟨-, hrefused⟩ := hstatus
    · exact hhalted
    · rw [Run.result?, hstop] at hrefused
      cases hrefused

end TapeMachine.Source
