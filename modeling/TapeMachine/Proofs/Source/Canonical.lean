import TapeMachine.Proofs.Machine.Normal
import TapeMachine.Proofs.Source.Grammar

/-! # Canonical texts tell programs apart

The space between two instructions of a canonical text may as well be an operand, and an operand
may look like a marker or a digit. The text can still be taken apart in one way only: the marker
says how an instruction goes on, and digits go on to the next space or to the end. What is lost is
the difference between a blank cell and a written space (`Program.text_eq_iff`). -/

namespace TapeMachine
set_option autoImplicit false

open Source (DigitsEnd digitsEnd_nil digitsEnd_cons digits_append_inj)

/-- Only a blank cell and a written space have the same normal form. -/
theorem Cell.normalize_eq_normalize_iff {x y : Cell} :
    x.normalize = y.normalize ↔
      x = y ∨ x = blank ∧ y = mark ' ' ∨ x = mark ' ' ∧ y = blank := by
  rw [← toChar_eq_iff]
  cases x with
  | blank => cases y <;> simp [eq_comm]
  | mark c => cases y <;> simp

/-! ## One instruction -/

theorem Opcode.marker_inj {o o' : Opcode} (h : o.marker = o'.marker) : o = o' := by
  have hsome := ofMarker?_marker o
  rw [h, ofMarker?_marker] at hsome
  exact (Option.some.inj hsome).symm

namespace Instruction

variable {i j : Instruction} {a b : List Char}

theorem toDigits_inj {m n : Nat} (h : Nat.toDigits 10 m = Nat.toDigits 10 n) : m = n := by
  rw [← Nat.ofDigitChars_ten_toDigits (n := m), h, Nat.ofDigitChars_ten_toDigits]

theorem arguments_append_inj (hop : i.opcode = j.opcode) (ha : DigitsEnd a) (hb : DigitsEnd b)
    (h : i.arguments ++ a = j.arguments ++ b) : i.normalize = j.normalize ∧ a = b := by
  cases i with
  | set x =>
    cases j with
    | set y =>
      obtain ⟨hchar, hrest⟩ := List.cons.inj h
      exact ⟨congrArg set (Cell.toChar_eq_iff.1 hchar), hrest⟩
    | right | left | jump | debug => cases hop
  | right =>
    cases j with
    | right => exact ⟨rfl, h⟩
    | set | left | jump | debug => cases hop
  | left =>
    cases j with
    | left => exact ⟨rfl, h⟩
    | set | right | jump | debug => cases hop
  | jump x m =>
    cases j with
    | jump y n =>
      obtain ⟨hchar, hrest⟩ := List.cons.inj h
      have hdigit : ∀ k, ∀ c ∈ Nat.toDigits 10 k, c.isDigit = true :=
        fun _ _ hc => Nat.isDigit_of_mem_toDigits (by decide) (by decide) hc
      obtain ⟨hdigits, hrest⟩ := digits_append_inj (hdigit m) (hdigit n) ha hb hrest
      rw [normalize, normalize, Cell.toChar_eq_iff.1 hchar, toDigits_inj hdigits]
      exact ⟨rfl, hrest⟩
    | set | right | left | debug => cases hop
  | debug =>
    cases j with
    | debug => exact ⟨rfl, h⟩
    | set | right | left | jump => cases hop

/-- A spelling ends at the same place in every text in which no digit follows it. -/
theorem spelling_append_inj (ha : DigitsEnd a) (hb : DigitsEnd b)
    (h : i.spelling ++ a = j.spelling ++ b) : i.normalize = j.normalize ∧ a = b := by
  obtain ⟨hmarker, hargs⟩ := List.cons.inj h
  exact arguments_append_inj (Opcode.marker_inj hmarker) ha hb hargs

/-! ## Many instructions -/

/-- The spellings of instructions with a space before each. -/
def followers (is : List Instruction) : List Char :=
  is.flatMap fun i => ' ' :: i.spelling

theorem digitsEnd_followers (is : List Instruction) : DigitsEnd (followers is) := by
  cases is with
  | nil => exact digitsEnd_nil
  | cons i is => exact digitsEnd_cons (by decide)

theorem intercalate_spellings (i : Instruction) (is : List Instruction) :
    [' '].intercalate ((i :: is).map spelling) = i.spelling ++ followers is := by
  induction is generalizing i with
  | nil => simp [followers]
  | cons j is ih =>
    have hj := ih j
    rw [List.map_cons] at hj
    rw [List.map_cons, List.map_cons, List.intercalate_cons_cons, hj, List.append_assoc]
    rfl

theorem map_normalize_of_followers {is js : List Instruction} (h : followers is = followers js) :
    is.map normalize = js.map normalize := by
  induction is generalizing js with
  | nil =>
    cases js with
    | nil => rfl
    | cons j js => cases h
  | cons i is ih =>
    cases js with
    | nil => cases h
    | cons j js =>
      -- The first space stands before both; whatever comes behind the first spelling is no digit.
      have hrest : i.spelling ++ followers is = j.spelling ++ followers js := (List.cons.inj h).2
      obtain ⟨hij, hfollow⟩ :=
        spelling_append_inj (digitsEnd_followers is) (digitsEnd_followers js) hrest
      rw [List.map_cons, List.map_cons, hij, ih hfollow]

theorem map_normalize_of_spellings {is js : List Instruction}
    (h : [' '].intercalate (is.map spelling) = [' '].intercalate (js.map spelling)) :
    is.map normalize = js.map normalize := by
  cases is with
  | nil =>
    cases js with
    | nil => rfl
    | cons j js =>
      rw [intercalate_spellings] at h
      cases h
  | cons i is =>
    cases js with
    | nil =>
      rw [intercalate_spellings] at h
      cases h
    | cons j js =>
      rw [intercalate_spellings, intercalate_spellings] at h
      obtain ⟨hij, hfollow⟩ :=
        spelling_append_inj (digitsEnd_followers is) (digitsEnd_followers js) h
      rw [List.map_cons, List.map_cons, hij, map_normalize_of_followers hfollow]

end Instruction

/-! ## Programs -/

namespace Program

theorem text_normalize (p : Program) : p.normalize.text = p.text := by
  have hspelling : Instruction.spelling ∘ Instruction.normalize = Instruction.spelling :=
    funext Instruction.spelling_normalize
  rw [text, text, spelling, spelling, normalize, toList_ofList, List.map_map, hspelling]

theorem text_eq_text_iff {p q : Program} : p.text = q.text ↔ p.normalize = q.normalize := by
  constructor
  · intro h
    have hspelling := Instruction.map_normalize_of_spellings (String.ofList_injective h)
    rw [normalize, normalize, hspelling]
  · intro h
    rw [← p.text_normalize, h, q.text_normalize]

/-- Two programs have the same canonical text exactly when they are of the same size and have the
same instructions up to the normal form of operands. Nothing is lost in a normal form but the
difference between a blank cell and a written space. -/
theorem text_eq_iff (p q : Program) :
    (p.text = q.text ↔ p.size = q.size ∧
      ∀ a, (p.get? a).map Instruction.normalize = (q.get? a).map Instruction.normalize) ∧
    ∀ x y : Cell, x.normalize = y.normalize ↔
      x = y ∨ x = .blank ∧ y = .mark ' ' ∨ x = .mark ' ' ∧ y = .blank := by
  refine ⟨?_, fun x y => Cell.normalize_eq_normalize_iff⟩
  rw [text_eq_text_iff]
  constructor
  · intro h
    have hsize := congrArg size h
    simp only [size_eq_length, normalize, toList_ofList, List.length_map] at hsize
    refine ⟨?_, ?_⟩
    · rw [size_eq_length, size_eq_length, hsize]
    · intro a
      rw [← get?_normalize, ← get?_normalize, h]
  · rintro ⟨-, h⟩
    have hlist : p.toList.map Instruction.normalize = q.toList.map Instruction.normalize := by
      apply List.ext_getElem?
      intro a
      have ha := h a
      rw [get?_eq_getElem?, get?_eq_getElem?] at ha
      rw [List.getElem?_map, List.getElem?_map, ha]
    rw [normalize, normalize, hlist]

end Program
end TapeMachine
