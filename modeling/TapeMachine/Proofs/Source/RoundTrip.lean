import Mathlib.Tactic.TFAE
import TapeMachine.Proofs.Source.Clean
import TapeMachine.Proofs.Source.Label

/-! # Canonical texts read back

The canonical text of a program is words with a space between neighbours, and it assembles to the
program whenever every operand can be written in a text. Every program that is assembled from some
text has only such operands, since no slash survives the cleaning of a text. So a program has a
source text at all exactly when its canonical text is one (`assemble_text_tfae`). -/

namespace TapeMachine
set_option autoImplicit false

/-- Whether a program text can have the cell as an operand: blank, or a visible ASCII character
other than the slash. -/
def Cell.isWritable : Cell → Bool
  | blank => true
  | mark c => decide ('!' ≤ c) && decide (c ≤ '~') && c != Reserved.commentStart

def Instruction.target? : Instruction → Option Nat
  | jump _ target => some target
  | set _ | right | left | debug => none

/-- Every jump target is an address that a machine word holds. -/
def Program.IsAddressable (p : Program) : Prop :=
  ∀ i ∈ p.toList, ∀ n ∈ i.target?, n ≤ Source.maxAddress

namespace Source

/-! ## Writable cells -/

theorem isWritable_ofChar {c : Char} :
    (Cell.ofChar c).isWritable = true ↔ isOperand c = true ∧ c ≠ Reserved.commentStart := by
  by_cases hc : c = ' '
  · subst hc
    decide
  · have hne : c.toNat ≠ 32 := fun h => hc (Char.toNat_inj.1 h)
    have hlow : '!' ≤ c ↔ 33 ≤ c.toNat := Iff.rfl
    have hhigh : c ≤ '~' ↔ c.toNat ≤ 126 := Iff.rfl
    rw [Cell.ofChar, Cell.blankChar, if_neg hc, Cell.isWritable, Bool.and_eq_true,
      Bool.and_eq_true, decide_eq_true_eq, decide_eq_true_eq, bne_iff_ne, isOperand_iff,
      hlow, hhigh]
    have hbound : 33 ≤ c.toNat ↔ 32 ≤ c.toNat := by omega
    rw [hbound]

theorem ofChar_toChar_of_isWritable {x : Cell} (h : x.isWritable = true) :
    Cell.ofChar x.toChar = x := by
  rw [Cell.ofChar_toChar, Cell.normalize_eq_self_iff]
  rintro rfl
  exact absurd h (by decide)

/-! ## Decimal digits -/

theorem exists_toDigits_eq_cons {n : Nat} (h : 0 < n) :
    ∃ c cs, Nat.toDigits 10 n = c :: cs ∧ c ≠ '0' := by
  induction n using Nat.strongRecOn with
  | _ n ih =>
    by_cases hn : n < 10
    · refine ⟨n.digitChar, [], Nat.toDigits_of_lt_base hn, ?_⟩
      rw [Ne, Nat.digitChar_eq_zero]
      omega
    · obtain ⟨c, cs, hcs, hc⟩ := ih (n / 10) (by omega) (by omega)
      refine ⟨c, cs ++ [(n % 10).digitChar], ?_, hc⟩
      rw [Nat.toDigits_of_base_le (by omega) (by omega), hcs, List.cons_append]

theorem isAddress_toDigits (n : Nat) : isAddress (Nat.toDigits 10 n) = true := by
  by_cases hn : n = 0
  · subst hn
    rw [Nat.toDigits_zero]
    rfl
  · obtain ⟨c, cs, hcs, hc⟩ := exists_toDigits_eq_cons (Nat.pos_of_ne_zero hn)
    have hd : ∀ d ∈ c :: cs, d.isDigit = true := by
      rw [← hcs]
      exact fun d hd => Nat.isDigit_of_mem_toDigits (by decide) (by decide) hd
    rw [hcs, isAddress, if_neg hc, Bool.and_eq_true, List.all_eq_true]
    exact ⟨hd c List.mem_cons_self, fun d hd' => hd d (List.mem_cons_of_mem c hd')⟩

theorem addressOfDigits_toDigits {n : Nat} (h : n ≤ maxAddress) :
    addressOfDigits (Nat.toDigits 10 n) = n := by
  rw [addressOfDigits, Nat.ofDigitChars_ten_toDigits, Nat.min_eq_left h]

/-! ## The words of a program -/

def wordOf : Instruction → Lexeme
  | .set value => .set value.toChar
  | .right => .right
  | .left => .left
  | .jump value target => .jumpAddress value.toChar (Nat.toDigits 10 target)
  | .debug => .debug

theorem spelling_wordOf (i : Instruction) : (wordOf i).spelling = i.spelling := by
  cases i <;> rfl

theorem spaced_wordOf (p : Program) : spaced (p.toList.map wordOf) = p.spelling := by
  rw [spaced, List.map_map, Program.spelling]
  congr 1
  apply List.map_congr_left
  exact fun i _ => spelling_wordOf i

theorem isWritable_wordOf {i : Instruction} (h : ∀ x ∈ i.operand?, x.isWritable = true) :
    (wordOf i).isWritable = true := by
  cases i with
  | right | left | debug => rfl
  | set x =>
    have hx := h x rfl
    rw [← ofChar_toChar_of_isWritable hx, isWritable_ofChar] at hx
    rw [Lexeme.isWritable, Bool.and_eq_true, bne_iff_ne]
    exact ⟨hx.1, fun he => hx.2 (Option.some.inj he)⟩
  | jump x n =>
    have hx := h x rfl
    rw [← ofChar_toChar_of_isWritable hx, isWritable_ofChar] at hx
    rw [Lexeme.isWritable, Bool.and_eq_true, bne_iff_ne]
    refine ⟨?_, fun he => hx.2 (Option.some.inj he)⟩
    rw [wordOf, Lexeme.isWord, hx.1, isAddress_toDigits]
    rfl

theorem instruction?_token_wordOf (labels : Labels) {i : Instruction}
    (ho : ∀ x ∈ i.operand?, x.isWritable = true) (ht : ∀ n ∈ i.target?, n ≤ maxAddress) :
    (wordOf i).token.instruction? labels = .ok (some i) := by
  cases i with
  | right | left | debug => rfl
  | set x =>
    rw [wordOf, Lexeme.token, Token.instruction?, ofChar_toChar_of_isWritable (ho x rfl)]
  | jump x n =>
    rw [wordOf, Lexeme.token, addressOfDigits_toDigits (ht n rfl), Token.instruction?,
      Target.resolve, ofChar_toChar_of_isWritable (ho x rfl)]

theorem resolve_tokens_wordOf (labels : Labels) {is : List Instruction}
    (ho : ∀ i ∈ is, ∀ x ∈ i.operand?, x.isWritable = true)
    (ht : ∀ i ∈ is, ∀ n ∈ i.target?, n ≤ maxAddress) :
    resolve labels ((is.map wordOf).map Lexeme.token) = .ok is := by
  induction is with
  | nil => rfl
  | cons i is ih =>
    rw [List.map_cons, List.map_cons, resolve,
      instruction?_token_wordOf labels (ho i List.mem_cons_self) (ht i List.mem_cons_self),
      ih (fun j hj => ho j (List.mem_cons_of_mem i hj))
        (fun j hj => ht j (List.mem_cons_of_mem i hj))]
    rfl

theorem isWritable_of_mem_words {is : List Instruction}
    (h : ∀ i ∈ is, ∀ x ∈ i.operand?, x.isWritable = true) :
    ∀ w ∈ is.map wordOf, w.isWritable = true := by
  intro w hw
  obtain ⟨i, hi, rfl⟩ := List.mem_map.1 hw
  exact isWritable_wordOf (h i hi)

theorem assemble_text_of_isWritable {p : Program} (ht : p.IsAddressable)
    (ho : ∀ i ∈ p.toList, ∀ x ∈ i.operand?, x.isWritable = true) : assemble p.text = .ok p := by
  rw [Program.text, ← spaced_wordOf, assemble_spaced (isWritable_of_mem_words ho), parse,
    resolve_tokens_wordOf _ ho ht]
  rfl

/-! ## Programs that have a source text -/

theorem exists_operand?_of_slot? {w : Lexeme} {x : Cell} (h : w.token.slot? = some (some x)) :
    ∃ c, w.operand? = some c ∧ x = .ofChar c := by
  cases w with
  | set c | jumpAddress c _ | jumpLabel c _ =>
    injection h with h
    injection h with h
    exact ⟨c, rfl, h.symm⟩
  | right | left | debug =>
    injection h with h
    cases h
  | label => cases h

/-- Every operand of a program that some text assembles to can be written in a text. -/
theorem isWritable_of_assemble {text : String} {p : Program} (h : assemble text = .ok p) :
    ∀ i ∈ p.toList, ∀ x ∈ i.operand?, x.isWritable = true := by
  obtain ⟨ws, is, hws, hchars, his, rfl⟩ := exists_words_of_assemble h
  intro i hi x hx
  rw [Program.toList_ofList] at hi
  have hslot : some x ∈ (ws.map Lexeme.token).filterMap Token.slot? := by
    rw [← operands_of_resolve his, ← hx]
    exact List.mem_map_of_mem hi
  obtain ⟨t, ht, hslot⟩ := List.mem_filterMap.1 hslot
  obtain ⟨w, hw, rfl⟩ := List.mem_map.1 ht
  obtain ⟨c, hc, rfl⟩ := exists_operand?_of_slot? hslot
  rw [isWritable_ofChar]
  refine ⟨isOperand_of_operand? (hws w hw) hc, ?_⟩
  rintro rfl
  have hmem : Reserved.commentStart ∈ clean text.toList := by
    rw [← hchars]
    exact List.mem_flatMap_of_mem hw (mem_spelling_of_operand? hc)
  exact commentStart_not_mem_clean _ hmem

/-- A program whose targets are addresses has a source text exactly when its canonical text
assembles to it, and exactly when every operand of it can be written in a text. -/
theorem assemble_text_tfae (p : Program) (h : p.IsAddressable) :
    List.TFAE [
      ∃ text, assemble text = .ok p,
      assemble p.text = .ok p,
      ∀ i ∈ p.toList, ∀ x ∈ i.operand?, x.isWritable = true] := by
  tfae_have 1 → 3 := by
    rintro ⟨text, ht⟩
    exact isWritable_of_assemble ht
  tfae_have 3 → 2 := assemble_text_of_isWritable h
  tfae_have 2 → 1 := fun ht => ⟨p.text, ht⟩
  tfae_finish

theorem assemble_text_tfae_backslash :
    let p := Program.ofList
      [.set (.mark '\\'), .set (.mark 's'), .set .blank, .jump (.mark 'j') maxAddress]
    p.IsAddressable ∧ assemble p.text = .ok p := by
  intro p
  have hp : p.IsAddressable := by
    unfold Program.IsAddressable
    decide
  exact ⟨hp, ((assemble_text_tfae p hp).out 2 1).1 (by decide)⟩

end Source
end TapeMachine
