import TapeMachine.Proofs.Machine.CutOff
import TapeMachine.Proofs.Machine.Range
import TapeMachine.Proofs.Source.Grammar
import TapeMachine.Proofs.Source.Resolution

/-! # Addresses of any size

The address of a jump may be written with any number of digits. It is read in machine words, one
digit after the other, and a number that no word holds stands for the largest word
(`Word.getD_ofDigits?`). In a program whose instructions a word can count, this address lies past
the end, so all that is lost is how far past the end a jump leads. The program runs as the one whose
jumps lead to the numbers that are written (`oversized_address_inert`). -/

namespace TapeMachine
set_option autoImplicit false

/-! ## Reading digits -/

namespace Word

/-- The product, unless it is too large for a word. -/
def mul? (a b : Nat) : Option Nat :=
  if a * b < UInt64.size then some (a * b) else none

/-- The number with one more digit behind it. -/
def pushDigit? (w : Nat) (c : Char) : Option Nat := do
  let shifted ← mul? w 10
  add? shifted (c.toNat - '0'.toNat)

/-- The number that digits denote, computed in words from the first digit on. -/
def ofDigits? (digits : List Char) : Option Nat :=
  digits.foldlM pushDigit? 0

theorem pushDigit?_eq (w : Nat) (c : Char) :
    pushDigit? w c =
      if 10 * w + (c.toNat - '0'.toNat) < UInt64.size then some (10 * w + (c.toNat - '0'.toNat))
      else none := by
  unfold pushDigit? mul? add?
  by_cases hmul : w * 10 < UInt64.size
  · rw [if_pos hmul, Nat.mul_comm w 10]
    rfl
  · -- The product alone is too large, and the digit makes it no smaller.
    rw [if_neg hmul, if_neg (by omega)]
    rfl

theorem le_ofDigitChars (w : Nat) (ds : List Char) : w ≤ Nat.ofDigitChars 10 ds w := by
  have hshift : w ≤ 10 ^ ds.length * w := Nat.le_mul_of_pos_left w (Nat.pow_pos (by decide))
  rw [Nat.ofDigitChars_eq_ofDigitChars_zero]
  omega

theorem foldlM_pushDigit? {w : Nat} (hw : w < UInt64.size) (ds : List Char) :
    ds.foldlM pushDigit? w =
      if Nat.ofDigitChars 10 ds w < UInt64.size then some (Nat.ofDigitChars 10 ds w) else none := by
  induction ds generalizing w with
  | nil =>
    rw [Nat.ofDigitChars_nil, if_pos hw]
    rfl
  | cons c ds ih =>
    rw [List.foldlM_cons, pushDigit?_eq, Nat.ofDigitChars_cons]
    by_cases hnext : 10 * w + (c.toNat - '0'.toNat) < UInt64.size
    · rw [if_pos hnext]
      exact ih hnext
    · -- What follows a number that is too large does not bring it back.
      have hle := le_ofDigitChars (10 * w + (c.toNat - '0'.toNat)) ds
      rw [if_neg hnext, if_neg (by omega)]
      rfl

theorem ofDigits?_eq (ds : List Char) :
    ofDigits? ds =
      if Nat.ofDigitChars 10 ds 0 < UInt64.size then some (Nat.ofDigitChars 10 ds 0) else none :=
  foldlM_pushDigit? (by decide) ds

theorem ofDigits?_eq_none_iff {ds : List Char} :
    ofDigits? ds = none ↔ Source.maxAddress < Nat.ofDigitChars 10 ds 0 := by
  have hpos : 0 < UInt64.size := by decide
  rw [ofDigits?_eq, Source.maxAddress]
  by_cases hfits : Nat.ofDigitChars 10 ds 0 < UInt64.size
  · rw [if_pos hfits]
    exact iff_of_false (by simp) (by omega)
  · rw [if_neg hfits]
    exact iff_of_true rfl (by omega)

theorem getD_ofDigits? (ds : List Char) :
    (ofDigits? ds).getD Source.maxAddress = Source.addressOfDigits ds := by
  rw [ofDigits?_eq, Source.addressOfDigits, Source.maxAddress]
  split
  · rw [Option.getD_some]
    omega
  · rw [Option.getD_none]
    omega

example : ofDigits? "18446744073709551615".toList = some Source.maxAddress ∧
    ofDigits? "18446744073709551616".toList = none := by decide

end Word

namespace Source

/-- A jump is read as one token, and its address is cut off at the largest word. -/
theorem tokenize_jump {operand : Char} {digits : List Char} (ho : isOperand operand = true)
    (hd : isAddress digits = true) :
    tokenize (String.ofList (Opcode.jump.marker :: operand :: digits)) =
      .ok [.jump operand (.address (addressOfDigits digits))] := by
  have hword : ∀ w ∈ [Lexeme.jumpAddress operand digits], w.isWord = true := by
    intro w hw
    rw [List.mem_singleton] at hw
    rw [hw, Lexeme.isWord, ho, hd]
    rfl
  have htokens := tokens_words hword
  rw [unspaced_singleton] at htokens
  rw [tokenize, String.toList_ofList]
  exact htokens

/-! ## Tokens with their addresses cut off -/

def Target.cutOff (limit : Nat) : Target → Target
  | address n => address (min n limit)
  | label name => label name

def Token.cutOff (limit : Nat) : Token → Token
  | jump operand target => jump operand (target.cutOff limit)
  | t => t

/-- The token of a lexeme with the address that is written, whatever its size. -/
def Lexeme.written : Lexeme → Token
  | jumpAddress operand digits => .jump operand (.address (Nat.ofDigitChars 10 digits 0))
  | w => w.token

theorem Lexeme.token_eq_cutOff (w : Lexeme) : w.token = w.written.cutOff maxAddress := by
  cases w <;> rfl

variable {limit : Nat} {labels : Labels} {ts : List Token}

theorem Token.hasInstruction_cutOff (limit : Nat) (t : Token) :
    (t.cutOff limit).hasInstruction = t.hasInstruction := by
  cases t <;> rfl

theorem countP_map_cutOff (limit : Nat) (ts : List Token) :
    (ts.map (Token.cutOff limit)).countP Token.hasInstruction = ts.countP Token.hasInstruction := by
  rw [List.countP_map]
  exact List.countP_congr fun t _ => by simp [Token.hasInstruction_cutOff]

theorem Labels.extend_map_cutOff (labels : Labels) (address : Nat) (ts : List Token) :
    Labels.extend labels address (ts.map (Token.cutOff limit)) =
      Labels.extend labels address ts := by
  induction ts generalizing labels address with
  | nil => rfl
  | cons t ts ih => cases t <;> exact ih _ _

theorem Target.resolve_cutOff (h : ∀ (name : String) n, labels[name]? = some n → n ≤ limit)
    (target : Target) :
    (target.cutOff limit).resolve labels = (target.resolve labels).map (min · limit) := by
  cases target with
  | address n => rfl
  | label name =>
    rw [Target.cutOff, Target.resolve]
    cases hname : labels[name]? with
    | none => rfl
    | some n =>
      have hmin := Nat.min_eq_left (h name n hname)
      simp only [Except.map, hmin]

theorem Token.instruction?_cutOff (h : ∀ (name : String) n, labels[name]? = some n → n ≤ limit)
    (t : Token) :
    (t.cutOff limit).instruction? labels =
      (t.instruction? labels).map (Option.map (Instruction.cutOff limit)) := by
  cases t with
  | set | right | left | debug | label => rfl
  | jump operand target =>
    rw [Token.cutOff, Token.instruction?, Token.instruction?, Target.resolve_cutOff h]
    cases target.resolve labels <;> rfl

theorem resolve_map_cutOff (h : ∀ (name : String) n, labels[name]? = some n → n ≤ limit)
    (ts : List Token) :
    resolve labels (ts.map (Token.cutOff limit)) =
      (resolve labels ts).map (List.map (Instruction.cutOff limit)) := by
  induction ts with
  | nil => rfl
  | cons t ts ih =>
    rw [List.map_cons, resolve, resolve, Token.instruction?_cutOff h, ih]
    cases t.instruction? labels with
    | error e => rfl
    | ok i? =>
      cases i? with
      | none => rfl
      | some i => cases resolve labels ts <;> rfl

/-- A limit that is not below the number of instructions cuts off literal addresses only: no label
stands for more than that number. -/
theorem parse_map_cutOff (h : ts.countP Token.hasInstruction ≤ limit) :
    parse (ts.map (Token.cutOff limit)) =
      (parse ts).map (List.map (Instruction.cutOff limit)) := by
  have hlabels : ∀ (name : String) n, (Labels.ofTokens ts)[name]? = some n → n ≤ limit := by
    intro name n hn
    have hle := (Labels.getElem?_eq_some_iff.1 hn).address_le
    rw [← List.countP_eq_length_filter] at hle
    omega
  rw [parse, Labels.ofTokens, Labels.extend_map_cutOff]
  exact resolve_map_cutOff hlabels ts

theorem parse_map_token {ws : List Lexeme}
    (h : (ws.map Lexeme.token).countP Token.hasInstruction ≤ maxAddress) :
    parse (ws.map Lexeme.token) =
      (parse (ws.map Lexeme.written)).map (List.map (Instruction.cutOff maxAddress)) := by
  have hcut : ws.map Lexeme.token = (ws.map Lexeme.written).map (Token.cutOff maxAddress) := by
    rw [List.map_map]
    exact List.map_congr_left fun w _ => w.token_eq_cutOff
  rw [hcut, countP_map_cutOff] at h
  rw [hcut, parse_map_cutOff h]

theorem size_of_parse {is : List Instruction} (h : parse ts = .ok is) :
    (Program.ofList is).size = ts.countP Token.hasInstruction := by
  rw [Program.size_eq_length, Program.toList_ofList, ← (forall₂_of_resolve h).length_eq,
    List.countP_eq_length_filter]

theorem exists_written {ws : List Lexeme} {is : List Instruction}
    (h : (ws.map Lexeme.token).countP Token.hasInstruction ≤ maxAddress)
    (hparse : parse (ws.map Lexeme.token) = .ok is) :
    ∃ js, parse (ws.map Lexeme.written) = .ok js ∧
      Program.ofList is = (Program.ofList js).cutOff maxAddress := by
  rw [parse_map_token h] at hparse
  cases hjs : parse (ws.map Lexeme.written) with
  | error e =>
    rw [hjs] at hparse
    cases hparse
  | ok js =>
    rw [hjs] at hparse
    injection hparse with hparse
    refine ⟨js, rfl, ?_⟩
    rw [← hparse]
    rfl

/-! ## Jumps that are taken -/

theorem get?_of_jumpAddress {ws : List Lexeme} {is : List Instruction}
    (hparse : parse (ws.map Lexeme.token) = .ok is) {place : Nat} {operand : Char}
    {digits : List Char} (hw : ws[place]? = some (.jumpAddress operand digits)) :
    (Program.ofList is).get? (instructionsBefore (ws.map Lexeme.token) place) =
      some (.jump (.ofChar operand) (addressOfDigits digits)) := by
  have ht : (ws.map Lexeme.token)[place]? =
      some (.jump operand (.address (addressOfDigits digits))) := by
    rw [List.getElem?_map, hw]
    rfl
  obtain ⟨i, hi, hget⟩ := getElem?_of_resolve hparse ht rfl
  obtain ⟨n, hn, rfl⟩ := Token.instruction?_jump_eq_ok_iff.1 hi
  injection hn with hn
  rw [Program.get?_eq_getElem?, hn]
  exact hget

theorem taken_jump {p : Program} (hsize : p.size ≤ limit) {m : Machine} {operand : Char}
    (hread : m.tape.read = .ofChar operand) (n : Nat) :
    let m' := m.perform (.jump (.ofChar operand) (min n limit))
    (m'.isHalted p = true ↔ p.size ≤ n) ∧ (n < p.size → m'.pc = n) := by
  intro m'
  have hpc : m'.pc = min n limit := by
    rw [Machine.perform_jump_pc, Cell.normalize_ofChar, if_pos hread]
  rw [Machine.isHalted, decide_eq_true_eq, hpc]
  omega

/-! ## Whole programs -/

/-- A jump with an address of any size is one token, whose target is the number that is written or
the largest word; reading the digits in words gives this target and fails exactly if no word holds
the number. With no more instructions than the largest word, tokens are resolved as if the targets
were the numbers that are written, and the two programs run alike: after any number of steps they
have the same result, or none yet, the same tape and counters, and have shown the same. A jump that
is taken halts exactly if the number that is written is not less than the length of the program, and
otherwise leads to that number. -/
theorem oversized_address_inert :
    (∀ operand digits, isOperand operand = true → isAddress digits = true →
      let n := Nat.ofDigitChars 10 digits 0
      tokenize (String.ofList ('j' :: operand :: digits)) =
          .ok [.jump operand (.address (min n maxAddress))] ∧
        (Word.ofDigits? digits = none ↔ maxAddress < n) ∧
        (Word.ofDigits? digits).getD maxAddress = min n maxAddress) ∧
    ∀ ws : List Lexeme, (ws.map Lexeme.token).countP Token.hasInstruction ≤ maxAddress →
      (∀ e, parse (ws.map Lexeme.token) = .error e ↔ parse (ws.map Lexeme.written) = .error e) ∧
      ∀ is, parse (ws.map Lexeme.token) = .ok is →
        (∃ js, parse (ws.map Lexeme.written) = .ok js ∧
          ∀ tape budget n,
            let r := (Program.ofList is).run tape (.ofNat budget) n
            let s := (Program.ofList js).run tape (.ofNat budget) n
            r.result? = s.result? ∧ r.snapshots = s.snapshots ∧
              r.machine.tape = s.machine.tape ∧ r.machine.steps = s.machine.steps ∧
              r.machine.dispatched = s.machine.dispatched ∧
              r.machine.pc = min s.machine.pc maxAddress) ∧
        ∀ place operand digits, ws[place]? = some (.jumpAddress operand digits) →
          ∀ m : Machine, m.pc = instructionsBefore (ws.map Lexeme.token) place →
            m.tape.read = .ofChar operand →
            let n := Nat.ofDigitChars 10 digits 0
            ∃ i, (Program.ofList is).get? m.pc = some i ∧
              ((m.perform i).isHalted (Program.ofList is) = true ↔ is.length ≤ n) ∧
              (n < is.length → (m.perform i).pc = n) := by
  refine ⟨?_, ?_⟩
  · intro operand digits ho hd n
    exact ⟨tokenize_jump ho hd, Word.ofDigits?_eq_none_iff, Word.getD_ofDigits? digits⟩
  · intro ws hws
    refine ⟨?_, ?_⟩
    · intro e
      rw [parse_map_token hws]
      cases parse (ws.map Lexeme.written) <;> simp [Except.map]
    · intro is hparse
      have hsize : (Program.ofList is).size ≤ maxAddress := by
        rw [size_of_parse hparse]
        exact hws
      obtain ⟨js, hjs, hcut⟩ := exists_written hws hparse
      refine ⟨⟨js, hjs, ?_⟩, ?_⟩
      · intro tape budget n r s
        have hrun : r = s.cutOff maxAddress := by
          rw [hcut, Program.size_cutOff] at hsize
          show (Program.ofList is).run tape (.ofNat budget) n = _
          rw [hcut]
          exact Program.run_cutOff hsize tape (.ofNat budget) n
        rw [hrun]
        exact ⟨Run.result?_cutOff s, Run.snapshots_cutOff s, rfl, rfl, rfl, rfl⟩
      · intro place operand digits hw m hpc hread n
        have htaken := taken_jump hsize hread n
        rw [Program.size_eq_length, Program.toList_ofList] at htaken
        refine ⟨_, ?_, htaken⟩
        rw [hpc]
        exact get?_of_jumpAddress hparse hw

/-- The least address that no word holds, behind a slash and in a program that also has a label. -/
theorem oversized_address_inert_first_too_large :
    let digits := "18446744073709551616".toList
    let ws : List Lexeme :=
      [.set 'x', .jumpAddress 'x' digits, .label ['0', '1'], .debug, .jumpLabel 'x' ['0', '1']]
    let is : List Instruction :=
      [.set (.mark 'x'), .jump (.mark 'x') maxAddress, .debug, .jump (.mark 'x') 2]
    let m : Machine := ⟨⟨#[.mark 'x'], 0⟩, 1, 1, 1⟩
    Nat.ofDigitChars 10 digits 0 = UInt64.size ∧
    tokenize (String.ofList ('j' :: '/' :: digits)) = .ok [.jump '/' (.address maxAddress)] ∧
    Word.ofDigits? digits = none ∧
    parse (ws.map Lexeme.token) = .ok is ∧
    (∃ js, parse (ws.map Lexeme.written) = .ok js ∧
      ((Program.ofList js).run .empty (.ofNat 2) 3).result? = some (.ok "x")) ∧
    ∃ i, (Program.ofList is).get? 1 = some i ∧
      (m.perform i).isHalted (Program.ofList is) = true := by
  intro digits ws is m
  have hdigits : isAddress digits = true := by decide
  have hvalue : Nat.ofDigitChars 10 digits 0 = UInt64.size := by decide
  have hcount : (ws.map Lexeme.token).countP Token.hasInstruction ≤ maxAddress := by decide
  have hparse : parse (ws.map Lexeme.token) = .ok is := by rfl
  have hstatus : ((Program.ofList is).run .empty (.ofNat 2) 3).status = .halted := by decide
  have htape : ((Program.ofList is).run .empty (.ofNat 2) 3).machine.tape.render = "x" := by decide
  obtain ⟨hread, hrun⟩ := oversized_address_inert
  obtain ⟨-, hok⟩ := hrun ws hcount
  obtain ⟨⟨js, hjs, hsame⟩, htaken⟩ := hok is hparse
  obtain ⟨htoken, hnone, -⟩ := hread '/' digits (by decide) hdigits
  have hplace : ws[1]? = some (.jumpAddress 'x' digits) := by simp [ws]
  have hpc : m.pc = instructionsBefore (ws.map Lexeme.token) 1 := by rfl
  have hcell : m.tape.read = .ofChar 'x' := by decide
  obtain ⟨i, hi, hhalted, -⟩ := htaken 1 'x' digits hplace m hpc hcell
  refine ⟨hvalue, ?_, ?_, hparse, ⟨js, hjs, ?_⟩, i, hi, ?_⟩
  · rw [htoken, hvalue]
    rfl
  · rw [hnone, hvalue]
    decide
  · rw [← (hsame .empty 2 3).1, Run.result?, hstatus, htape]
  · rw [hhalted, hvalue]
    decide

end Source
end TapeMachine
