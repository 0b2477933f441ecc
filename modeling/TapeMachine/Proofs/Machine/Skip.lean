import Mathlib.Logic.Function.Iterate
import TapeMachine.Proofs.Machine.Step

/-! # Skipping

Two programs that differ by places which one of them skips. Their runs go together but for idle
steps, and where the skipped places are left out, a place gets the number of kept places before it
as its new address. -/

namespace TapeMachine
set_option autoImplicit false

variable {α β : Type}

/-! ## Idle steps -/

section Stutters

variable {f : α → α} {g : β → β} {R : α → β → Prop} {idle : α → Nat} {a : α} {b : β}

/-- Related states stay related: both take a step, or only the first does, and that brings it
closer to a step that both take. -/
def Stutters (f : α → α) (g : β → β) (R : α → β → Prop) (idle : α → Nat) : Prop :=
  ∀ a b, R a b → R (f a) (g b) ∨ R (f a) b ∧ idle (f a) < idle a

theorem Stutters.forth (h : Stutters f g R idle) (hab : R a b) (n : Nat) :
    ∃ k, R (f^[n] a) (g^[k] b) := by
  induction n with
  | zero => exact ⟨0, hab⟩
  | succ n ih =>
    obtain ⟨k, hk⟩ := ih
    rw [Function.iterate_succ_apply']
    obtain hboth | ⟨hidle, -⟩ := h _ _ hk
    · refine ⟨k + 1, ?_⟩
      rw [Function.iterate_succ_apply']
      exact hboth
    · exact ⟨k, hidle⟩

theorem Stutters.exists_both (h : Stutters f g R idle) (hab : R a b) :
    ∃ n, R (f^[n] a) (g b) := by
  induction hd : idle a using Nat.strongRecOn generalizing a with
  | ind d ih =>
    obtain hboth | ⟨hidle, hlt⟩ := h a b hab
    · exact ⟨1, hboth⟩
    · obtain ⟨n, hn⟩ := ih (idle (f a)) (by omega) hidle rfl
      exact ⟨n + 1, hn⟩

theorem Stutters.back (h : Stutters f g R idle) (hab : R a b) (k : Nat) :
    ∃ n, R (f^[n] a) (g^[k] b) := by
  induction k with
  | zero => exact ⟨0, hab⟩
  | succ k ih =>
    obtain ⟨n, hn⟩ := ih
    obtain ⟨n', hn'⟩ := h.exists_both hn
    refine ⟨n' + n, ?_⟩
    rw [Function.iterate_add_apply, Function.iterate_succ_apply']
    exact hn'

/-- From `a` on, `f` leads to `s`, where it is done. -/
def Rests (f : α → α) (done : α → Prop) (a s : α) : Prop :=
  done s ∧ ∃ n, f^[n] a = s

/-- If related states are done together, either both systems come to rest, in related states, or
none of them does. -/
theorem Stutters.rests {done : α → Prop} {done' : β → Prop} (h : Stutters f g R idle)
    (hdone : ∀ a b, R a b → (done a ↔ done' b)) (hab : R a b) :
    (¬ ∃ s, Rests f done a s) ∧ (¬ ∃ s', Rests g done' b s') ∨
      ∃ s s', Rests f done a s ∧ Rests g done' b s' ∧ R s s' := by
  by_cases hrests : ∃ s, Rests f done a s
  · obtain ⟨s, hs, n, hn⟩ := hrests
    obtain ⟨k, hk⟩ := h.forth hab n
    rw [hn] at hk
    exact .inr ⟨s, g^[k] b, ⟨hs, n, hn⟩, ⟨(hdone _ _ hk).1 hs, k, rfl⟩, hk⟩
  · refine .inl ⟨hrests, ?_⟩
    rintro ⟨s', hs', k, hk⟩
    obtain ⟨n, hn⟩ := h.back hab k
    rw [hk] at hn
    exact hrests ⟨f^[n] a, (hdone _ _ hn).2 hs', n, rfl⟩

end Stutters

theorem Run.advance_eq_iterate (p : Program) (b : Budget) (n : Nat) (r : Run) :
    r.advance p b n = (step p b)^[n] r := by
  induction n with
  | zero => rfl
  | succ n ih => rw [advance_succ_last, ih, Function.iterate_succ_apply']

theorem Run.ends_iff_rests {p : Program} {b : Budget} {r s : Run} :
    r.Ends p b s ↔ Rests (step p b) (fun s => s.status ≠ .running) r s := by
  simp only [Ends, Rests, advance_eq_iterate]

/-! ## Kept places -/

/-- The number of kept places before a place. -/
def rank (kept : α → Bool) (l : List α) (k : Nat) : Nat :=
  (l.take k).countP kept

section Rank

variable {kept : α → Bool} {l : List α} {k : Nat} {x : α}

theorem rank_le (kept : α → Bool) (l : List α) (k : Nat) :
    rank kept l k ≤ (l.filter kept).length := by
  rw [← List.countP_eq_length_filter]
  exact (List.take_sublist k l).countP_le

theorem rank_of_length_le (h : l.length ≤ k) : rank kept l k = (l.filter kept).length := by
  rw [rank, List.take_of_length_le h, List.countP_eq_length_filter]

theorem rank_succ (h : l[k]? = some x) :
    rank kept l (k + 1) = rank kept l k + if kept x then 1 else 0 := by
  rw [rank, rank, List.take_add_one, h, List.countP_append]
  simp [List.countP_cons]

theorem getElem?_filter_rank (h : l[k]? = some x) (hx : kept x = true) :
    (l.filter kept)[rank kept l k]? = some x := by
  obtain ⟨hk, rfl⟩ := List.getElem?_eq_some_iff.1 h
  have hsplit : l.filter kept =
      (l.take k).filter kept ++ (l[k] :: (l.drop (k + 1)).filter kept) := by
    rw [← List.filter_cons_of_pos hx, ← List.drop_eq_getElem_cons hk, ← List.filter_append,
      List.take_append_drop]
  rw [hsplit, rank, List.countP_eq_length_filter, List.getElem?_append_right (Nat.le_refl _)]
  simp

theorem rank_lt (h : l[k]? = some x) (hx : kept x = true) :
    rank kept l k < (l.filter kept).length :=
  (List.getElem?_eq_some_iff.1 (getElem?_filter_rank h hx)).1

end Rank
end TapeMachine
