import Mathlib.Data.List.DropRight
import TapeMachine.Tape

/-! # What a tape shows

Trimming takes spaces off the two ends of a text and nothing else, and leaves a text that neither
starts nor ends with a space. -/

namespace TapeMachine.Tape
set_option autoImplicit false

theorem trim_eq (cs : List Char) : trim cs = (cs.dropWhile (· == ' ')).rdropWhile (· == ' ') := rfl

theorem exists_spaces_append_dropWhile (cs : List Char) :
    ∃ i, cs = List.replicate i ' ' ++ cs.dropWhile (· == ' ') := by
  refine ⟨(cs.takeWhile (· == ' ')).length, ?_⟩
  have hspaces : ∀ c ∈ cs.takeWhile (· == ' '), c = ' ' := by
    intro c hc
    simpa using List.mem_takeWhile_imp hc
  rw [← List.eq_replicate_of_mem hspaces, List.takeWhile_append_dropWhile]

/-- Only spaces are trimmed. -/
theorem exists_spaces_trim (cs : List Char) :
    ∃ i k, cs = List.replicate i ' ' ++ (trim cs ++ List.replicate k ' ') := by
  obtain ⟨i, hi⟩ := exists_spaces_append_dropWhile cs
  obtain ⟨k, hk⟩ := exists_spaces_append_dropWhile (cs.dropWhile (· == ' ')).reverse
  refine ⟨i, k, ?_⟩
  have hback := congrArg List.reverse hk
  rw [List.reverse_reverse, List.reverse_append, List.reverse_replicate] at hback
  rw [trim, ← hback, ← hi]

theorem head?_trim (cs : List Char) : (trim cs).head? ≠ some ' ' := by
  intro h
  -- What is cut off at the end leaves the first character where it was.
  obtain ⟨rest, hrest⟩ := List.rdropWhile_prefix (· == ' ') (l := cs.dropWhile (· == ' '))
  rw [← trim_eq] at hrest
  have hhead : (cs.dropWhile (· == ' ')).head? = some ' ' := by
    rw [← hrest, List.head?_append, h]
    rfl
  have hnot := List.head?_dropWhile_not (· == ' ') cs
  simp [hhead] at hnot

theorem getLast?_trim (cs : List Char) : (trim cs).getLast? ≠ some ' ' := by
  intro h
  rw [trim, List.getLast?_reverse] at h
  have hnot := List.head?_dropWhile_not (· == ' ') (cs.dropWhile (· == ' ')).reverse
  simp [h] at hnot

/-- The text is empty, or it starts and ends with a character other than a space. -/
def Trimmed (cs : List Char) : Prop :=
  cs = [] ∨ (∃ c ∈ cs.head?, c ≠ ' ') ∧ ∃ c ∈ cs.getLast?, c ≠ ' '

theorem trimmed_iff {cs : List Char} :
    Trimmed cs ↔ cs.head? ≠ some ' ' ∧ cs.getLast? ≠ some ' ' := by
  cases cs with
  | nil => simp [Trimmed]
  | cons c cs =>
    rw [Trimmed, List.head?_cons, List.getLast?_eq_some_getLast (List.cons_ne_nil c cs)]
    simp

theorem trimmed_trim (cs : List Char) : Trimmed (trim cs) :=
  trimmed_iff.2 ⟨head?_trim cs, getLast?_trim cs⟩

theorem dropWhile_spaces_append (n : Nat) {cs : List Char} (h : cs.head? ≠ some ' ') :
    (List.replicate n ' ' ++ cs).dropWhile (· == ' ') = cs := by
  have hspaces : ∀ c ∈ List.replicate n ' ', (c == ' ') = true := by
    intro c hc
    simp [List.eq_of_mem_replicate hc]
  rw [List.dropWhile_append_of_pos hspaces]
  cases cs with
  | nil => rfl
  | cons c cs => exact List.dropWhile_cons_of_neg (by simpa using h)

theorem trim_spaces {cs : List Char} (h : Trimmed cs) (i k : Nat) :
    trim (List.replicate i ' ' ++ (cs ++ List.replicate k ' ')) = cs := by
  rw [trimmed_iff] at h
  cases cs with
  | nil =>
    have hall : List.replicate i ' ' ++ ([] ++ List.replicate k ' ') =
        List.replicate (i + k) ' ' ++ [] := by simp
    rw [hall, trim, dropWhile_spaces_append _ h.1]
    rfl
  | cons c cs =>
    have hfront : (c :: cs ++ List.replicate k ' ').head? ≠ some ' ' := h.1
    have hback : (c :: cs).reverse.head? ≠ some ' ' := by
      rw [List.head?_reverse]
      exact h.2
    rw [trim, dropWhile_spaces_append i hfront, List.reverse_append, List.reverse_replicate,
      dropWhile_spaces_append k hback, List.reverse_reverse]

/-- The trimmed text is the only one without spaces at its ends that spaces around it make the
text of. -/
theorem trim_eq_iff {cs ds : List Char} :
    trim cs = ds ↔
      Trimmed ds ∧ ∃ i k, cs = List.replicate i ' ' ++ (ds ++ List.replicate k ' ') := by
  constructor
  · rintro rfl
    exact ⟨trimmed_trim cs, exists_spaces_trim cs⟩
  · rintro ⟨hds, i, k, rfl⟩
    exact trim_spaces hds i k

theorem trim_append_spaces (cs : List Char) (n : Nat) :
    trim (cs ++ List.replicate n ' ') = trim cs := by
  obtain ⟨i, k, hcs⟩ := exists_spaces_trim cs
  refine trim_eq_iff.2 ⟨trimmed_trim cs, i, k + n, ?_⟩
  rw [← List.replicate_append_replicate, ← List.append_assoc (trim cs),
    ← List.append_assoc (List.replicate i ' '), ← hcs]

/-! ## Cells as characters -/

theorem toChar_get (t : Tape) (i : Nat) : (t.get i).toChar = t.chars.getD i ' ' := by
  rw [get_eq, chars, List.getD_eq_getElem?_getD, List.getElem?_map, Array.getElem?_toList]
  cases t.cells[i]? <;> rfl

theorem getD_spaces_append (i k j : Nat) (cs : List Char) :
    (List.replicate i ' ' ++ (cs ++ List.replicate k ' ')).getD j ' ' =
      if j < i then ' ' else cs.getD (j - i) ' ' := by
  simp only [List.getD_eq_getElem?_getD, List.getElem?_append, List.length_replicate,
    List.getElem?_replicate]
  split
  · rfl
  · split
    · rfl
    · next h =>
      rw [List.getElem?_eq_none (Nat.le_of_not_lt h)]
      split <;> rfl

end TapeMachine.Tape
