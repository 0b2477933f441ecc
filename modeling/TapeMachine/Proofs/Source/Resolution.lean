import TapeMachine.Proofs.Source.Label

/-! # What labels stand for

A name stands for the number of instructions before its last declaration, wherever its jumps are.
Said of the list of tokens itself, without the table of labels: where a name is declared for the
last time (`LastDeclared`), and which instruction a token stands for (`Denotes`). Resolution gives
every token its instruction if each name that a jump uses is declared somewhere, and otherwise
stops at the first jump to a name that is not. -/

namespace TapeMachine.Source
set_option autoImplicit false

variable {ts : List Token} {name : String} {labels : Labels}

/-! ## Declarations -/

/-- The last declaration of the name stands behind so many instructions. -/
def LastDeclared (ts : List Token) (name : String) (address : Nat) : Prop :=
  ∃ before after, ts = before ++ .label name :: after ∧ .label name ∉ after ∧
    before.countP Token.hasInstruction = address

theorem afterLabel?_eq_none_iff : afterLabel? name ts = none ↔ .label name ∉ ts := by
  induction ts with
  | nil => simp [afterLabel?]
  | cons t ts ih =>
    rw [afterLabel?, List.mem_cons, not_or, ← ih]
    cases afterLabel? name ts with
    | some place => simp
    | none => simp [eq_comm]

theorem afterLabel?_append {after : List Token} (before : List Token) (h : .label name ∉ after) :
    afterLabel? name (before ++ .label name :: after) = some (before.length + 1) := by
  induction before with
  | nil => simp [afterLabel?, afterLabel?_eq_none_iff.2 h]
  | cons t before ih => rw [List.cons_append, afterLabel?, ih, List.length_cons]

theorem exists_split_of_afterLabel? {place : Nat} (h : afterLabel? name ts = some place) :
    ∃ before after, ts = before ++ .label name :: after ∧ .label name ∉ after ∧
      place = before.length + 1 := by
  induction ts generalizing place with
  | nil => cases h
  | cons t ts ih =>
    rw [afterLabel?] at h
    split at h
    · next later hlater =>
      obtain ⟨before, after, rfl, hafter, rfl⟩ := ih hlater
      injection h with h
      exact ⟨t :: before, after, rfl, hafter, h.symm⟩
    · next hnone =>
      split at h
      · next ht =>
        injection h with h
        exact ⟨[], ts, by rw [ht]; rfl, afterLabel?_eq_none_iff.1 hnone, h.symm⟩
      · cases h

/-- A declaration itself is no instruction. -/
theorem instructionsBefore_append (before after : List Token) :
    instructionsBefore (before ++ .label name :: after) (before.length + 1) =
      before.countP Token.hasInstruction := by
  have hsplit : before ++ .label name :: after = (before ++ [.label name]) ++ after := by simp
  have hlen : before.length + 1 = (before ++ [Token.label name]).length := by simp
  rw [instructionsBefore, rank, hsplit, hlen, List.take_left, List.countP_append]
  rfl

theorem Labels.getElem?_eq_some_iff {address : Nat} :
    (Labels.ofTokens ts)[name]? = some address ↔ LastDeclared ts name address := by
  rw [Labels.getElem?_ofTokens, Option.map_eq_some_iff]
  constructor
  · rintro ⟨place, hplace, haddress⟩
    obtain ⟨before, after, rfl, hafter, rfl⟩ := exists_split_of_afterLabel? hplace
    rw [instructionsBefore_append] at haddress
    exact ⟨before, after, rfl, hafter, haddress⟩
  · rintro ⟨before, after, rfl, hafter, haddress⟩
    refine ⟨before.length + 1, afterLabel?_append before hafter, ?_⟩
    rw [instructionsBefore_append, haddress]

theorem Labels.getElem?_eq_none_iff :
    (Labels.ofTokens ts)[name]? = none ↔ .label name ∉ ts := by
  rw [Labels.getElem?_ofTokens, Option.map_eq_none_iff, afterLabel?_eq_none_iff]

theorem LastDeclared.mem {address : Nat} (h : LastDeclared ts name address) :
    .label name ∈ ts := by
  obtain ⟨before, after, rfl, -, -⟩ := h
  simp

theorem LastDeclared.address_le {address : Nat} (h : LastDeclared ts name address) :
    address ≤ (ts.filter Token.hasInstruction).length := by
  obtain ⟨before, after, rfl, -, rfl⟩ := h
  rw [← List.countP_eq_length_filter, List.countP_append]
  omega

/-! ## Instructions -/

/-- The instruction that a token of the list stands for. -/
inductive Denotes (ts : List Token) : Token → Instruction → Prop
  | set (operand : Char) : Denotes ts (.set operand) (.set (.ofChar operand))
  | right : Denotes ts .right .right
  | left : Denotes ts .left .left
  | debug : Denotes ts .debug .debug
  | address (operand : Char) (n : Nat) :
      Denotes ts (.jump operand (.address n)) (.jump (.ofChar operand) n)
  | label {name : String} {n : Nat} (operand : Char) (h : LastDeclared ts name n) :
      Denotes ts (.jump operand (.label name)) (.jump (.ofChar operand) n)

theorem Target.resolve_label_eq_ok_iff {n : Nat} :
    (Target.label name).resolve labels = .ok n ↔ labels[name]? = some n := by
  rw [Target.resolve]
  cases labels[name]? <;> simp

theorem Token.instruction?_jump_eq_ok_iff {operand : Char} {target : Target} {i : Instruction} :
    (Token.jump operand target).instruction? labels = .ok (some i) ↔
      ∃ n, target.resolve labels = .ok n ∧ i = .jump (.ofChar operand) n := by
  rw [Token.instruction?]
  cases target.resolve labels with
  | ok n => simp [eq_comm]
  | error e => simp

theorem denotes_iff {t : Token} {i : Instruction} :
    Denotes ts t i ↔ t.instruction? (Labels.ofTokens ts) = .ok (some i) := by
  constructor
  · intro h
    cases h with
    | set | right | left | debug | address => rfl
    | label operand h =>
      refine Token.instruction?_jump_eq_ok_iff.2 ⟨_, ?_, rfl⟩
      exact Target.resolve_label_eq_ok_iff.2 (Labels.getElem?_eq_some_iff.2 h)
  · intro h
    cases t with
    | set operand =>
      cases h
      exact .set operand
    | right =>
      cases h
      exact .right
    | left =>
      cases h
      exact .left
    | debug =>
      cases h
      exact .debug
    | label name => cases h
    | jump operand target =>
      obtain ⟨n, hn, rfl⟩ := Token.instruction?_jump_eq_ok_iff.1 h
      cases target with
      | address m =>
        injection hn with hn
        rw [← hn]
        exact .address operand m
      | label name =>
        exact .label operand (Labels.getElem?_eq_some_iff.1 (Target.resolve_label_eq_ok_iff.1 hn))

theorem resolve_eq_ok_of_forall₂ {is : List Instruction}
    (h : List.Forall₂ (fun t i => t.instruction? labels = .ok (some i))
      (ts.filter Token.hasInstruction) is) : resolve labels ts = .ok is := by
  induction ts generalizing is with
  | nil =>
    cases h
    rfl
  | cons t ts ih =>
    cases ht : t.hasInstruction with
    | false =>
      obtain ⟨name, rfl⟩ := Token.exists_eq_label ht
      exact ih h
    | true =>
      rw [List.filter_cons_of_pos ht] at h
      cases h with
      | cons hi hrest =>
        rw [resolve, hi]
        simp only [ih hrest]
        rfl

theorem parse_eq_ok_iff {is : List Instruction} :
    parse ts = .ok is ↔ List.Forall₂ (Denotes ts) (ts.filter Token.hasInstruction) is := by
  constructor
  · intro h
    exact (forall₂_of_resolve h).imp fun _ _ => denotes_iff.2
  · intro h
    exact resolve_eq_ok_of_forall₂ (h.imp fun _ _ => denotes_iff.1)

/-! ## The first fault -/

theorem Token.instruction?_eq_error_iff {t : Token} {e : Fault} :
    t.instruction? labels = .error e ↔
      ∃ operand name, t = .jump operand (.label name) ∧ labels[name]? = none ∧
        e = .unknownLabel name := by
  constructor
  · intro h
    cases t with
    | set | right | left | debug | label => cases h
    | jump operand target =>
      cases target with
      | address n => cases h
      | label name =>
        rw [Token.instruction?, Target.resolve] at h
        cases hname : labels[name]? with
        | some n => simp [hname] at h
        | none =>
          simp only [hname, Except.error.injEq] at h
          exact ⟨operand, name, rfl, hname, h.symm⟩
  · rintro ⟨operand, name, rfl, hname, rfl⟩
    simp [Token.instruction?, Target.resolve, hname]

/-- Past a token without a fault, the fault is that of the tokens behind it. -/
theorem resolve_cons_eq_error_iff {t : Token} {i? : Option Instruction} {e : Fault}
    (ht : t.instruction? labels = .ok i?) :
    resolve labels (t :: ts) = .error e ↔ resolve labels ts = .error e := by
  rw [resolve, ht]
  cases i? with
  | none => rfl
  | some i => cases resolve labels ts <;> simp [Except.map]

theorem resolve_eq_error_iff {e : Fault} :
    resolve labels ts = .error e ↔
      ∃ before t after, ts = before ++ t :: after ∧ t.instruction? labels = .error e ∧
        ∀ u ∈ before, ∀ e', u.instruction? labels ≠ .error e' := by
  induction ts with
  | nil => simp [resolve]
  | cons t ts ih =>
    cases ht : t.instruction? labels with
    | error e' =>
      have hhead : resolve labels (t :: ts) = .error e' := by rw [resolve, ht]
      rw [hhead]
      constructor
      · intro h
        injection h with h
        exact ⟨[], t, ts, rfl, by rw [ht, h], by simp⟩
      · rintro ⟨before, u, after, hsplit, hu, hbefore⟩
        cases before with
        | nil =>
          injection hsplit with htu
          rw [← htu, ht] at hu
          injection hu with hu
          rw [hu]
        | cons v before =>
          injection hsplit with htv
          exact absurd (htv ▸ ht) (hbefore v List.mem_cons_self e')
    | ok i? =>
      rw [resolve_cons_eq_error_iff ht, ih]
      constructor
      · rintro ⟨before, u, after, rfl, hu, hbefore⟩
        refine ⟨t :: before, u, after, rfl, hu, ?_⟩
        intro v hv
        obtain rfl | hv := List.mem_cons.1 hv
        · simp [ht]
        · exact hbefore v hv
      · rintro ⟨before, u, after, hsplit, hu, hbefore⟩
        cases before with
        | nil =>
          injection hsplit with htu
          rw [← htu, ht] at hu
          cases hu
        | cons v before =>
          injection hsplit with htv hsplit
          exact ⟨before, u, after, hsplit, hu, fun w hw => hbefore w (List.mem_cons_of_mem v hw)⟩

theorem parse_eq_error_iff {e : Fault} :
    parse ts = .error e ↔
      ∃ before operand name after, ts = before ++ .jump operand (.label name) :: after ∧
        .label name ∉ ts ∧
        (∀ operand' name', .jump operand' (.label name') ∈ before → .label name' ∈ ts) ∧
        e = .unknownLabel name := by
  rw [parse, resolve_eq_error_iff]
  constructor
  · rintro ⟨before, t, after, hsplit, ht, hbefore⟩
    obtain ⟨operand, name, rfl, hname, rfl⟩ := Token.instruction?_eq_error_iff.1 ht
    refine ⟨before, operand, name, after, hsplit, Labels.getElem?_eq_none_iff.1 hname, ?_, rfl⟩
    intro operand' name' hmem
    by_contra hundeclared
    refine hbefore _ hmem (.unknownLabel name') (Token.instruction?_eq_error_iff.2 ?_)
    exact ⟨operand', name', rfl, Labels.getElem?_eq_none_iff.2 hundeclared, rfl⟩
  · rintro ⟨before, operand, name, after, hsplit, hname, hbefore, rfl⟩
    refine ⟨before, _, after, hsplit, Token.instruction?_eq_error_iff.2 ?_, ?_⟩
    · exact ⟨operand, name, rfl, Labels.getElem?_eq_none_iff.2 hname, rfl⟩
    · intro u hu e' he'
      obtain ⟨operand', name', rfl, hnone, -⟩ := Token.instruction?_eq_error_iff.1 he'
      exact Labels.getElem?_eq_none_iff.1 hnone (hbefore operand' name' hu)

theorem exists_parse_iff :
    (∃ is, parse ts = .ok is) ↔
      ∀ operand name, .jump operand (.label name) ∈ ts → .label name ∈ ts := by
  constructor
  · rintro ⟨is, h⟩ operand name hmem
    obtain ⟨place, hplace⟩ := List.mem_iff_getElem?.1 hmem
    obtain ⟨i, hi, -⟩ := getElem?_of_resolve h hplace rfl
    obtain ⟨n, hn, -⟩ := Token.instruction?_jump_eq_ok_iff.1 hi
    exact (Labels.getElem?_eq_some_iff.1 (Target.resolve_label_eq_ok_iff.1 hn)).mem
  · intro hdeclared
    cases h : parse ts with
    | ok is => exact ⟨is, rfl⟩
    | error e =>
      obtain ⟨before, operand, name, after, hsplit, hname, -⟩ := parse_eq_error_iff.1 h
      refine absurd (hdeclared operand name ?_) hname
      rw [hsplit]
      simp

/-- The table holds the declared names, each with the number of instructions before its last
declaration. Tokens are resolved if and only if every name that a jump uses is declared somewhere;
they become the instructions they stand for, one by one, and no label leads further than the end.
Otherwise the fault names the first jump to a name that is declared nowhere. -/
theorem resolution_exact (ts : List Token) :
    (∀ name, name ∈ Labels.ofTokens ts ↔ .label name ∈ ts) ∧
    (∀ name address, (Labels.ofTokens ts)[name]? = some address ↔
      LastDeclared ts name address) ∧
    ((∃ is, parse ts = .ok is) ↔
      ∀ operand name, .jump operand (.label name) ∈ ts → .label name ∈ ts) ∧
    (∀ is, parse ts = .ok is ↔
      List.Forall₂ (Denotes ts) (ts.filter Token.hasInstruction) is) ∧
    (∀ is name address, parse ts = .ok is → LastDeclared ts name address →
      address ≤ is.length) ∧
    ∀ e, parse ts = .error e ↔
      ∃ before operand name after, ts = before ++ .jump operand (.label name) :: after ∧
        .label name ∉ ts ∧
        (∀ operand' name', .jump operand' (.label name') ∈ before → .label name' ∈ ts) ∧
        e = .unknownLabel name := by
  refine ⟨?_, ?_, exists_parse_iff, fun _ => parse_eq_ok_iff, ?_, fun _ => parse_eq_error_iff⟩
  · intro name
    rw [Std.TreeMap.mem_iff_isSome_getElem?, Option.isSome_iff_ne_none, ne_eq,
      Labels.getElem?_eq_none_iff, not_not]
  · intro name address
    exact Labels.getElem?_eq_some_iff
  · intro is name address h hlast
    rw [← (parse_eq_ok_iff.1 h).length_eq]
    exact hlast.address_le

/-- A name that is declared twice and used before, between and behind its declarations; then the
same jumps without the declarations. -/
theorem resolution_exact_declared_twice :
    let jump : Token := .jump 'x' (.label "01")
    let ts : List Token := [jump, .label "01", .right, jump, .label "01", .set ' ', jump]
    let is : List Instruction :=
      [.jump (.mark 'x') 3, .right, .jump (.mark 'x') 3, .set .blank, .jump (.mark 'x') 3]
    LastDeclared ts "01" 3 ∧ (Labels.ofTokens ts)["01"]? = some 3 ∧ parse ts = .ok is ∧
      3 ≤ is.length ∧
      parse (.label "02" :: .jump 'x' (.label "02") :: jump :: [.jump 'y' (.label "03")]) =
        .error (.unknownLabel "01") := by
  intro jump ts is
  have hlast : LastDeclared ts "01" 3 :=
    ⟨[jump, .label "01", .right, jump], [.set ' ', jump], rfl, by decide, by decide⟩
  obtain ⟨-, hbound, -, hok, hle, -⟩ := resolution_exact ts
  have hparse : parse ts = .ok is := by
    rw [hok]
    exact .cons (.label 'x' hlast) (.cons .right (.cons (.label 'x' hlast)
      (.cons (.set ' ') (.cons (.label 'x' hlast) .nil))))
  refine ⟨hlast, (hbound "01" 3).2 hlast, hparse, hle is "01" 3 hparse hlast, ?_⟩
  obtain ⟨-, -, -, -, -, herror⟩ := resolution_exact
    (.label "02" :: .jump 'x' (.label "02") :: jump :: [.jump 'y' (.label "03")])
  rw [herror]
  refine ⟨[.label "02", .jump 'x' (.label "02")], 'x', "01", [.jump 'y' (.label "03")], rfl,
    by decide, ?_, rfl⟩
  intro operand' name' hmem
  simp only [List.mem_cons, reduceCtorEq, Token.jump.injEq, Target.label.injEq, false_or,
    List.not_mem_nil, or_false] at hmem
  rw [hmem.2]
  exact List.mem_cons_self

end TapeMachine.Source
