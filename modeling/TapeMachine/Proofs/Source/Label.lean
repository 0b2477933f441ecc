import Mathlib.Data.List.Forall2
import TapeMachine.Proofs.Machine.Skip
import TapeMachine.Source.Label

/-! # What resolution keeps of the tokens

The instructions of tokens stand in the order of the tokens, a label declaration has none, and
whatever the labels stand for, an instruction has the operand of its token. The address of an
instruction is the number of instructions before its token, and a label stands for the number of
instructions before its last declaration. -/

namespace TapeMachine
set_option autoImplicit false

def Instruction.operand? : Instruction → Option Cell
  | set value => some value
  | jump value _ => some value
  | right | left | debug => none

namespace Source

/-- The operand, if any, that a token gives to its instruction; no slot for a label declaration,
which has no instruction. -/
def Token.slot? : Token → Option (Option Cell)
  | set operand => some (some (.ofChar operand))
  | jump operand _ => some (some (.ofChar operand))
  | right | left | debug => some none
  | label _ => none

theorem Token.slot?_of_instruction? {labels : Labels} {t : Token} {i? : Option Instruction}
    (h : t.instruction? labels = .ok i?) : t.slot? = i?.map Instruction.operand? := by
  cases t with
  | set operand | right | left | debug | label name =>
    injection h with h
    rw [← h]
    rfl
  | jump operand target =>
    rw [Token.instruction?] at h
    split at h
    · injection h with h
      rw [← h]
      rfl
    · cases h

theorem operands_of_resolve {labels : Labels} {ts : List Token} {is : List Instruction}
    (h : resolve labels ts = .ok is) :
    is.map Instruction.operand? = ts.filterMap Token.slot? := by
  induction ts generalizing is with
  | nil =>
    injection h with h
    rw [← h]
    rfl
  | cons t ts ih =>
    rw [resolve] at h
    split at h
    · cases h
    · next ht =>
      rw [List.filterMap_cons_none (Token.slot?_of_instruction? ht)]
      exact ih h
    · next i ht =>
      cases hr : resolve labels ts with
      | error e =>
        rw [hr] at h
        cases h
      | ok js =>
        rw [hr] at h
        injection h with h
        rw [← h, List.map_cons, ih hr,
          List.filterMap_cons_some (Token.slot?_of_instruction? ht)]

/-! ## The only failure -/

theorem Target.unknownLabel_of_resolve {labels : Labels} {target : Target} {e : Fault}
    (h : target.resolve labels = .error e) : ∃ name, e = .unknownLabel name := by
  cases target with
  | address n => cases h
  | label name =>
    rw [Target.resolve] at h
    split at h
    · cases h
    · injection h with h
      exact ⟨name, h.symm⟩

theorem Token.unknownLabel_of_instruction? {labels : Labels} {t : Token} {e : Fault}
    (h : t.instruction? labels = .error e) : ∃ name, e = .unknownLabel name := by
  cases t with
  | set | right | left | debug | label => cases h
  | jump operand target =>
    rw [Token.instruction?] at h
    split at h
    · cases h
    · next hres =>
      injection h with h
      rw [← h]
      exact Target.unknownLabel_of_resolve hres

theorem unknownLabel_of_resolve {labels : Labels} {ts : List Token} {e : Fault}
    (h : resolve labels ts = .error e) : ∃ name, e = .unknownLabel name := by
  induction ts with
  | nil => cases h
  | cons t ts ih =>
    rw [resolve] at h
    split at h
    · next ht =>
      injection h with h
      rw [← h]
      exact Token.unknownLabel_of_instruction? ht
    · exact ih h
    · apply ih
      cases hr : resolve labels ts with
      | error e' =>
        rw [hr] at h
        injection h with h
        rw [h]
      | ok js =>
        rw [hr] at h
        cases h

/-! ## Addresses -/

/-- Whether a token has an instruction; a label declaration has none. -/
def Token.hasInstruction : Token → Bool
  | set _ | right | left | debug | jump _ _ => true
  | label _ => false

theorem Token.exists_eq_label {t : Token} (h : t.hasInstruction = false) :
    ∃ name, t = .label name := by
  cases t with
  | set | right | left | debug | jump => cases h
  | label name => exact ⟨name, rfl⟩

theorem Token.hasInstruction_eq (t : Token) : t.hasInstruction = t.slot?.isSome := by
  cases t <;> rfl

theorem Token.hasInstruction_of_instruction? {labels : Labels} {t : Token}
    {i? : Option Instruction} (h : t.instruction? labels = .ok i?) :
    t.hasInstruction = i?.isSome := by
  rw [Token.hasInstruction_eq, Token.slot?_of_instruction? h, Option.isSome_map]

/-- The tokens that have instructions become them one by one. -/
theorem forall₂_of_resolve {labels : Labels} {ts : List Token} {is : List Instruction}
    (h : resolve labels ts = .ok is) :
    List.Forall₂ (fun t i => t.instruction? labels = .ok (some i))
      (ts.filter Token.hasInstruction) is := by
  induction ts generalizing is with
  | nil =>
    injection h with h
    rw [← h]
    exact .nil
  | cons t ts ih =>
    rw [resolve] at h
    split at h
    · cases h
    · next ht =>
      rw [List.filter_cons_of_neg (by simp [Token.hasInstruction_of_instruction? ht])]
      exact ih h
    · next i ht =>
      rw [List.filter_cons_of_pos (by simp [Token.hasInstruction_of_instruction? ht])]
      cases hr : resolve labels ts with
      | error e =>
        rw [hr] at h
        cases h
      | ok js =>
        rw [hr] at h
        injection h with h
        rw [← h]
        exact .cons ht (ih hr)

/-- The number of instructions before a place in a list of tokens. -/
def instructionsBefore (ts : List Token) (place : Nat) : Nat :=
  rank Token.hasInstruction ts place

/-- The instruction of a token stands at the address that counts the instructions before it. -/
theorem getElem?_of_resolve {labels : Labels} {ts : List Token} {is : List Instruction}
    {place : Nat} {t : Token} (h : resolve labels ts = .ok is) (ht : ts[place]? = some t)
    (hinstr : t.hasInstruction = true) :
    ∃ i, t.instruction? labels = .ok (some i) ∧ is[instructionsBefore ts place]? = some i := by
  have hall := forall₂_of_resolve h
  obtain ⟨hkept, heq⟩ := List.getElem?_eq_some_iff.1 (getElem?_filter_rank ht hinstr)
  have hlt : rank Token.hasInstruction ts place < is.length := by
    rw [← hall.length_eq]
    exact hkept
  refine ⟨is[rank Token.hasInstruction ts place], ?_, List.getElem?_eq_getElem hlt⟩
  rw [← heq]
  exact hall.get hkept hlt

theorem instructionsBefore_cons (t : Token) (ts : List Token) (place : Nat) :
    instructionsBefore (t :: ts) (place + 1) =
      instructionsBefore ts place + if t.hasInstruction then 1 else 0 := by
  rw [instructionsBefore, instructionsBefore, rank, rank, List.take_succ_cons, List.countP_cons]

@[simp]
theorem instructionsBefore_zero (ts : List Token) : instructionsBefore ts 0 = 0 := rfl

/-- The place right after the last declaration of a name. -/
def afterLabel? (name : String) : List Token → Option Nat
  | [] => none
  | t :: ts =>
    match afterLabel? name ts with
    | some place => some (place + 1)
    | none => if t = .label name then some 1 else none

theorem Labels.getElem?_extend (labels : Labels) (address : Nat) (ts : List Token)
    (name : String) :
    (Labels.extend labels address ts)[name]? =
      match afterLabel? name ts with
      | some place => some (address + instructionsBefore ts place)
      | none => labels[name]? := by
  induction ts generalizing labels address with
  | nil => rfl
  | cons t ts ih =>
    rw [afterLabel?]
    cases t with
    | label other =>
      rw [Labels.extend, ih]
      cases afterLabel? name ts with
      | some place => simp [instructionsBefore_cons, Token.hasInstruction]
      | none =>
        by_cases hname : other = name
        · simp [hname, instructionsBefore_cons, Token.hasInstruction]
        · simp [hname, Std.TreeMap.getElem?_insert]
    | set | right | left | debug | jump =>
      rw [Labels.extend, ih]
      · cases afterLabel? name ts with
        | some place =>
          have hsum := Nat.add_right_comm address 1 (instructionsBefore ts place)
          simp [instructionsBefore_cons, Token.hasInstruction, hsum, Nat.add_assoc]
        | none => simp
      · simp

theorem Labels.getElem?_ofTokens (ts : List Token) (name : String) :
    (Labels.ofTokens ts)[name]? = (afterLabel? name ts).map (instructionsBefore ts) := by
  rw [Labels.ofTokens, Labels.getElem?_extend]
  cases afterLabel? name ts <;> simp

end Source
end TapeMachine
