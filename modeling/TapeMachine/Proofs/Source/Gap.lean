import Mathlib.Data.List.Chain
import TapeMachine.Proofs.Source.Grammar

/-! # Gaps between words

`dropGaps` looks for a lexeme at every place of a text, so white space could be dropped after
something that only looks like a lexeme. Here is what this does to words that stand between gaps.
A lexeme that starts inside of a word with digits ends among them or where they end, and no white
space stands there (`noGap_digits`). Only one that starts at the operand of a `set` reaches into the
next word. If white space follows it, it ends where that word ends, so that only the gap is dropped
and the search goes on behind it (`dropGaps_next_word`). There is one exception: right after `ss`,
the second `s` and the next marker look like a lexeme, and a blank operand behind them is taken for
a gap (`dropGaps_lost`). So the gaps go and the words stay if no operand is lost
(`dropGaps_gapped`). -/

namespace TapeMachine.Source
set_option autoImplicit false

/-! ## Places without a gap -/

/-- The text does not go on with white space. -/
def GapFree (cs : List Char) : Prop :=
  ∀ c ∈ cs.head?, Text.isWhitespace c = false

/-- No lexeme with white space behind it stands at the front of the text. -/
def NoGap (cs : List Char) : Prop :=
  ∀ w rest, scan? cs = some (w, rest) → GapFree rest

/-- The text goes on neither with a digit nor with white space: a word before it is complete. -/
structure Boundary (rest : List Char) : Prop where
  digitsEnd : DigitsEnd rest
  gapFree : GapFree rest

theorem gapFree_nil : GapFree [] := by
  intro c hc
  simp at hc

theorem gapFree_cons {c : Char} {cs : List Char} (h : Text.isWhitespace c = false) :
    GapFree (c :: cs) := by
  intro d hd
  rw [List.head?_cons, Option.mem_some_iff] at hd
  rw [← hd, h]

theorem dropWhile_of_gapFree {cs : List Char} (h : GapFree cs) :
    cs.dropWhile Text.isWhitespace = cs := by
  cases cs with
  | nil => rfl
  | cons c cs => rw [List.dropWhile_cons_of_neg (by simp [h c rfl])]

theorem gapFree_dropWhile (cs : List Char) : GapFree (cs.dropWhile Text.isWhitespace) := by
  intro c hc
  have hnot := List.head?_dropWhile_not Text.isWhitespace cs
  rw [Option.mem_def.1 hc] at hnot
  simpa using hnot

theorem takeWhile_ne_nil_of_not_gapFree {cs : List Char} (h : ¬ GapFree cs) :
    cs.takeWhile Text.isWhitespace ≠ [] := by
  intro hnil
  apply h
  have hsplit := List.takeWhile_append_dropWhile (p := Text.isWhitespace) (l := cs)
  rw [hnil, List.nil_append] at hsplit
  rw [← hsplit]
  exact gapFree_dropWhile cs

theorem not_gapFree_gap_append {g rest : List Char} (hne : g ≠ [])
    (hg : ∀ c ∈ g, Text.isWhitespace c = true) : ¬ GapFree (g ++ rest) := by
  obtain ⟨b, g, rfl⟩ := List.exists_cons_of_ne_nil hne
  intro hfree
  have hb := hfree b rfl
  rw [hg b List.mem_cons_self] at hb
  cases hb

theorem digitsEnd_gap_append {g rest : List Char} (hne : g ≠ [])
    (hg : ∀ c ∈ g, Text.isWhitespace c = true) : DigitsEnd (g ++ rest) := by
  obtain ⟨b, g, rfl⟩ := List.exists_cons_of_ne_nil hne
  exact digitsEnd_cons (isDigit_of_isWhitespace (hg b List.mem_cons_self))

theorem digitsEnd_gap_boundary {g rest : List Char} (hg : ∀ c ∈ g, Text.isWhitespace c = true)
    (hr : Boundary rest) : DigitsEnd (g ++ rest) := by
  by_cases hne : g = []
  · rw [hne]
    exact hr.digitsEnd
  · exact digitsEnd_gap_append hne hg

theorem gapFree_digits_append {ds rest : List Char} (hd : ∀ c ∈ ds, c.isDigit = true)
    (hr : GapFree rest) : GapFree (ds ++ rest) := by
  cases ds with
  | nil => exact hr
  | cons d ds => exact gapFree_cons (isWhitespace_of_isDigit (hd d List.mem_cons_self))

theorem boundary_nil : Boundary [] :=
  ⟨digitsEnd_nil, gapFree_nil⟩

theorem boundary_spelling_append (w : Lexeme) (rest : List Char) :
    Boundary (w.spelling ++ rest) := by
  refine ⟨digitsEnd_spelling_append w rest, ?_⟩
  rw [w.spelling_eq, List.cons_append]
  exact gapFree_cons w.isWhitespace_marker

theorem boundary_unspaced (ws : List Lexeme) : Boundary (unspaced ws) := by
  cases ws with
  | nil => exact boundary_nil
  | cons w ws =>
    rw [unspaced_cons]
    exact boundary_spelling_append w _

/-! ## One step of the search -/

theorem dropGaps_nil : dropGaps [] = [] := by
  rw [dropGaps]

theorem dropGaps_of_gap {c b : Char} {cs rest : List Char} {w : Lexeme}
    (h : scan? (c :: cs) = some (w, b :: rest)) (hb : Text.isWhitespace b = true) :
    dropGaps (c :: cs) = w.spelling ++ dropGaps (rest.dropWhile Text.isWhitespace) := by
  rw [dropGaps]
  split
  · next w' b' rest' heq =>
    rw [h] at heq
    injection heq with heq
    injection heq with h₁ h₂
    injection h₂ with h₂ h₃
    subst h₁ h₂ h₃
    rw [if_pos hb]
  · next hne => exact absurd h (hne w b rest)

/-- Elsewhere the character is kept and the search goes on behind it. -/
theorem dropGaps_cons {c : Char} {cs : List Char} (h : NoGap (c :: cs)) :
    dropGaps (c :: cs) = c :: dropGaps cs := by
  rw [dropGaps]
  split
  · next w b rest heq =>
    have hb : Text.isWhitespace b = false := h w (b :: rest) heq b rfl
    rw [if_neg (by simp [hb])]
  · rfl

theorem noGap_of_none {cs : List Char} (h : scan? cs = none) : NoGap cs := by
  intro w rest hw
  rw [h] at hw
  cases hw

theorem noGap_of_some {cs rest : List Char} {w : Lexeme} (h : scan? cs = some (w, rest))
    (hr : GapFree rest) : NoGap cs := by
  intro v left hv
  rw [h] at hv
  injection hv with hv
  injection hv with h₁ h₂
  rw [← h₂]
  exact hr

theorem scan?_of_not_mem_markers {c : Char} (h : c ∉ Lexeme.markers) (cs : List Char) :
    scan? (c :: cs) = none := by
  rw [Lexeme.markers, List.mem_cons, List.mem_map, not_or, not_exists] at h
  have hop : Opcode.ofMarker? c = none := by
    rw [Option.eq_none_iff_forall_ne_some]
    intro op hop
    exact h.2 op ⟨op.mem_all, Opcode.ofMarker?_eq_some_iff.1 hop⟩
  rw [scan?, hop]
  exact if_neg h.1

theorem not_mem_markers_of_isDigit {c : Char} (h : c.isDigit = true) : c ∉ Lexeme.markers := by
  intro hm
  rw [Lexeme.isDigit_of_mem_markers hm] at h
  exact Bool.false_ne_true h

theorem not_mem_markers_of_isWhitespace {c : Char} (h : Text.isWhitespace c = true) :
    c ∉ Lexeme.markers := by
  intro hm
  rw [Lexeme.isWhitespace_of_mem_markers hm] at h
  exact Bool.false_ne_true h

theorem dropGaps_plain_append {cs : List Char} (h : ∀ c ∈ cs, c ∉ Lexeme.markers)
    (rest : List Char) : dropGaps (cs ++ rest) = cs ++ dropGaps rest := by
  induction cs with
  | nil => rfl
  | cons c cs ih =>
    have hnone := scan?_of_not_mem_markers (h c List.mem_cons_self) (cs ++ rest)
    rw [List.cons_append, dropGaps_cons (noGap_of_none hnone),
      ih fun d hd => h d (List.mem_cons_of_mem c hd), List.cons_append]

theorem dropGaps_digits_append {ds : List Char} (hd : ∀ c ∈ ds, c.isDigit = true)
    (rest : List Char) : dropGaps (ds ++ rest) = ds ++ dropGaps rest :=
  dropGaps_plain_append (fun c hc => not_mem_markers_of_isDigit (hd c hc)) rest

theorem dropGaps_whitespace_append {g : List Char} (hg : ∀ c ∈ g, Text.isWhitespace c = true)
    (rest : List Char) : dropGaps (g ++ rest) = g ++ dropGaps rest :=
  dropGaps_plain_append (fun c hc => not_mem_markers_of_isWhitespace (hg c hc)) rest

/-! ## A word with a gap behind it -/

theorem dropGaps_word_gap {w : Lexeme} {g rest : List Char} (h : w.isWord = true)
    (hne : g ≠ []) (hg : ∀ c ∈ g, Text.isWhitespace c = true) (hr : GapFree rest) :
    dropGaps (w.spelling ++ (g ++ rest)) = w.spelling ++ dropGaps rest := by
  obtain ⟨b, g, rfl⟩ := List.exists_cons_of_ne_nil hne
  have hb : Text.isWhitespace b = true := hg b List.mem_cons_self
  have hs : scan? (w.spelling ++ (b :: (g ++ rest))) = some (w, b :: (g ++ rest)) :=
    scan?_spelling_append h (digitsEnd_cons (isDigit_of_isWhitespace hb))
  have hdrop : (g ++ rest).dropWhile Text.isWhitespace = rest := by
    rw [List.dropWhile_append_of_pos fun c hc => hg c (List.mem_cons_of_mem b hc)]
    exact dropWhile_of_gapFree hr
  rw [w.spelling_eq, List.cons_append] at hs
  rw [w.spelling_eq, List.cons_append, List.cons_append, dropGaps_of_gap hs hb, hdrop,
    w.spelling_eq]

/-- A word with a gap behind it stands at the front of the text. -/
structure GapAt (cs : List Char) (w : Lexeme) (g rest : List Char) : Prop where
  split : cs = w.spelling ++ (g ++ rest)
  word : w.isWord = true
  gap_ne : g ≠ []
  gap : ∀ c ∈ g, Text.isWhitespace c = true
  free : GapFree rest

theorem noGap_or_gapAt (cs : List Char) : NoGap cs ∨ ∃ w g rest, GapAt cs w g rest := by
  cases hs : scan? cs with
  | none => exact .inl (noGap_of_none hs)
  | some r =>
    obtain ⟨w, left⟩ := r
    by_cases hfree : GapFree left
    · exact .inl (noGap_of_some hs hfree)
    · refine .inr ⟨w, left.takeWhile Text.isWhitespace, left.dropWhile Text.isWhitespace, ?_⟩
      refine ⟨?_, isWord_of_scan? hs, ?_, ?_, ?_⟩
      · rw [List.takeWhile_append_dropWhile, spelling_append_of_scan? hs]
      · exact takeWhile_ne_nil_of_not_gapFree hfree
      · exact List.all_eq_true.1 List.all_takeWhile
      · exact gapFree_dropWhile left

theorem GapAt.dropGaps_eq {cs : List Char} {w : Lexeme} {g rest : List Char}
    (h : GapAt cs w g rest) : dropGaps cs = w.spelling ++ dropGaps rest := by
  rw [h.split, dropGaps_word_gap h.word h.gap_ne h.gap h.free]

theorem GapAt.of_cons {c : Char} {cs : List Char} {w : Lexeme} {g rest : List Char}
    (h : GapAt (c :: cs) w g rest) : w.marker = c ∧ cs = w.arguments ++ (g ++ rest) := by
  have hsplit := h.split
  rw [w.spelling_eq, List.cons_append] at hsplit
  injection hsplit with hmarker hcs
  exact ⟨hmarker.symm, hcs⟩

/-! ## Inside of a word -/

theorem noGap_word {w : Lexeme} {rest : List Char} (h : w.isWord = true) (hr : Boundary rest) :
    NoGap (w.spelling ++ rest) :=
  noGap_of_some (scan?_spelling_append h hr.digitsEnd) hr.gapFree

/-- Nothing that starts right before digits has white space behind it, whatever marker it starts
with: it ends among the digits or where they end. -/
theorem noGap_digits {ds rest : List Char} (c : Char) (hne : ds ≠ [])
    (hd : ∀ c ∈ ds, c.isDigit = true) (hr : Boundary rest) : NoGap (c :: (ds ++ rest)) := by
  obtain hno | ⟨u, g, left, hu⟩ := noGap_or_gapAt (c :: (ds ++ rest))
  · exact hno
  · have hargs : u.arguments ++ (g ++ left) = ds ++ rest := hu.of_cons.2.symm
    have hdigits := isDigit_of_arguments_append hu.word hne hd hargs
    have hend : DigitsEnd (g ++ left) := digitsEnd_gap_append hu.gap_ne hu.gap
    obtain ⟨-, hrest⟩ := digits_append_inj hdigits hd hend hr.digitsEnd hargs
    have hfree := hr.gapFree
    rw [← hrest] at hfree
    exact absurd hfree (not_gapFree_gap_append hu.gap_ne hu.gap)

/-- The search passes a word that a boundary follows, and comes to that boundary, provided that it
passes the operand of a `set`: this may be the marker of a lexeme that reaches further. -/
theorem dropGaps_word_append {w : Lexeme} {rest : List Char} (h : w.isWord = true)
    (hr : Boundary rest) (hset : ∀ c, w = .set c → dropGaps (c :: rest) = c :: dropGaps rest) :
    dropGaps (w.spelling ++ rest) = w.spelling ++ dropGaps rest := by
  have hfirst := noGap_word h hr
  cases w with
  | right | left | debug => exact dropGaps_cons hfirst
  | set c =>
    rw [Lexeme.spelling_set, List.cons_append] at hfirst ⊢
    rw [dropGaps_cons hfirst, List.cons_append, List.nil_append, hset c rfl]
    rfl
  | jumpAddress c ds | jumpLabel c ds =>
    obtain ⟨hne, hd⟩ := digits_of_jump h rfl
    rw [Lexeme.spelling, List.cons_append, List.cons_append] at hfirst ⊢
    rw [dropGaps_cons hfirst, dropGaps_cons (noGap_digits c hne hd hr), dropGaps_digits_append hd]
    rfl
  | label name =>
    rw [Lexeme.spelling, List.cons_append] at hfirst ⊢
    rw [dropGaps_cons hfirst, dropGaps_digits_append (isDigit_of_isLabelName h)]
    rfl

theorem noGap_singleton (c : Char) : NoGap [c] := by
  intro w rest h
  have hlen := length_lt_of_scan? h
  rw [List.length_singleton, Nat.lt_one_iff, List.length_eq_zero_iff] at hlen
  rw [hlen]
  exact gapFree_nil

theorem dropGaps_last_word {w : Lexeme} {g : List Char} (hw : w.isWord = true)
    (hg : ∀ c ∈ g, Text.isWhitespace c = true) : dropGaps (w.spelling ++ g) = w.spelling := by
  by_cases hne : g = []
  · have hlast := dropGaps_word_append hw boundary_nil fun c _ => dropGaps_cons (noGap_singleton c)
    rw [dropGaps_nil, List.append_nil] at hlast
    rw [hne, List.append_nil, hlast]
  · have hlast := dropGaps_word_gap hw hne hg gapFree_nil
    rw [dropGaps_nil, List.append_nil, List.append_nil] at hlast
    exact hlast

/-! ## From a word to the next -/

/-- The second of two neighbours keeps its operand: it is not blank, or the first is not `ss`. -/
def Keeps (w v : Lexeme) : Prop :=
  ¬ (w = .set Opcode.set.marker ∧ v.operand? = some ' ')

instance (w v : Lexeme) : Decidable (Keeps w v) :=
  inferInstanceAs (Decidable (¬ _))

/-- A lexeme that starts right before a word and has white space behind it ends with the word. -/
theorem GapAt.arguments_eq {c : Char} {v u : Lexeme} {g rest k left : List Char}
    (hu : GapAt (c :: (v.spelling ++ (g ++ rest))) u k left) (hv : v.isWord = true)
    (hg : ∀ c ∈ g, Text.isWhitespace c = true) (hr : Boundary rest) (hk : Keeps (.set c) v) :
    u.arguments = v.spelling := by
  obtain ⟨rfl, hargs⟩ := hu.of_cons
  rw [v.spelling_eq, List.cons_append] at hargs
  obtain ⟨b, k, rfl⟩ := List.exists_cons_of_ne_nil hu.gap_ne
  have hb := hu.gap b List.mem_cons_self
  have hword := hu.word
  rw [v.spelling_eq]
  cases u with
  | right | left | debug =>
    have hspace := v.isWhitespace_marker
    rw [(List.cons.inj hargs).1, hb] at hspace
    cases hspace
  | label name =>
    obtain ⟨d, ds, rfl, -, -⟩ := isLabelName_iff.1 hword
    have hzero := v.isDigit_marker
    rw [(List.cons.inj hargs).1] at hzero
    cases hzero
  | set m =>
    obtain ⟨rfl, hrest⟩ := List.cons.inj hargs
    cases ha : v.arguments with
    | nil => rfl
    | cons a as =>
      rw [ha] at hrest
      obtain rfl : a = b := (List.cons.inj hrest).1
      have hop := operand?_of_isWhitespace hv (ha ▸ List.mem_cons_self) hb
      exact absurd ⟨rfl, hop⟩ hk
  | jumpAddress m ds | jumpLabel m ds =>
    obtain ⟨hne, hds⟩ := digits_of_jump hword rfl
    obtain ⟨rfl, hrest⟩ := List.cons.inj hargs
    have hdigits := isDigit_of_arguments_append hv hne hds hrest
    have hend : DigitsEnd (b :: k ++ left) := digitsEnd_gap_append hu.gap_ne hu.gap
    rw [Lexeme.arguments,
      (digits_append_inj hdigits hds (digitsEnd_gap_boundary hg hr) hend hrest).1]

theorem dropGaps_cons_word {c : Char} {v : Lexeme} {g rest : List Char} (hv : v.isWord = true)
    (hg : ∀ c ∈ g, Text.isWhitespace c = true) (hr : Boundary rest) (hk : Keeps (.set c) v) :
    dropGaps (c :: (v.spelling ++ (g ++ rest))) = c :: dropGaps (v.spelling ++ (g ++ rest)) := by
  obtain hno | ⟨u, k, left, hu⟩ := noGap_or_gapAt (c :: (v.spelling ++ (g ++ rest)))
  · exact dropGaps_cons hno
  · obtain ⟨rfl, hrest⟩ := hu.of_cons
    rw [hu.arguments_eq hv hg hr hk] at hrest
    rw [hu.dropGaps_eq, List.append_cancel_left hrest,
      dropGaps_word_gap hv hu.gap_ne hu.gap hu.free, u.spelling_eq, hu.arguments_eq hv hg hr hk]
    rfl

/-- The search passes a word and the gap behind it and comes to the next word. Without a gap, that
word has to keep its operand. -/
theorem dropGaps_next_word {w v : Lexeme} {g k rest : List Char} (hw : w.isWord = true)
    (hg : ∀ c ∈ g, Text.isWhitespace c = true) (hv : v.isWord = true)
    (hk : ∀ c ∈ k, Text.isWhitespace c = true) (hr : Boundary rest)
    (hkeeps : g = [] → Keeps w v) :
    dropGaps (w.spelling ++ (g ++ (v.spelling ++ (k ++ rest)))) =
      w.spelling ++ dropGaps (v.spelling ++ (k ++ rest)) := by
  have hnext : Boundary (v.spelling ++ (k ++ rest)) := boundary_spelling_append v _
  by_cases hne : g = []
  · rw [hne, List.nil_append]
    apply dropGaps_word_append hw hnext
    rintro c rfl
    exact dropGaps_cons_word hv hk hr (hkeeps hne)
  · exact dropGaps_word_gap hw hne hg hnext.gapFree

/-- Right after `ss`, the search takes the blank operand of a word for a gap. -/
theorem dropGaps_lost {v : Lexeme} (hop : v.operand? = some ' ') (rest : List Char) :
    dropGaps ((Lexeme.set Opcode.set.marker).spelling ++ (v.spelling ++ rest)) =
      (Lexeme.set Opcode.set.marker).spelling ++
        (v.marker :: dropGaps ((v.arguments.tail ++ rest).dropWhile Text.isWhitespace)) := by
  obtain ⟨ds, hds⟩ := exists_arguments_of_operand? hop
  have hfirst : NoGap (Opcode.set.marker :: Opcode.set.marker :: (v.spelling ++ rest)) :=
    noGap_of_some rfl (boundary_spelling_append v rest).gapFree
  have hsecond : scan? (Opcode.set.marker :: (v.spelling ++ rest)) =
      some (.set v.marker, ' ' :: (ds ++ rest)) := by
    rw [v.spelling_eq, List.cons_append, scan?_set, set?, if_pos v.isOperand_marker, hds,
      List.cons_append]
  simp only [Lexeme.spelling_set, List.cons_append, List.nil_append]
  rw [dropGaps_cons hfirst, dropGaps_of_gap hsecond Text.isWhitespace_space, hds, List.tail_cons]
  rfl

/-! ## Words and the gaps behind them -/

/-- The text of words that are each followed by a gap. -/
def gapped (items : List (Lexeme × List Char)) : List Char :=
  items.flatMap fun i => i.1.spelling ++ i.2

theorem gapped_cons (i : Lexeme × List Char) (items : List (Lexeme × List Char)) :
    gapped (i :: items) = i.1.spelling ++ (i.2 ++ gapped items) := by
  rw [gapped, gapped, List.flatMap_cons, List.append_assoc]

theorem boundary_gapped (items : List (Lexeme × List Char)) : Boundary (gapped items) := by
  cases items with
  | nil => exact boundary_nil
  | cons i items =>
    rw [gapped_cons]
    exact boundary_spelling_append i.1 _

/-- The words and the gaps behind them are words of the grammar and white space. -/
def AreItems (items : List (Lexeme × List Char)) : Prop :=
  ∀ i ∈ items, i.1.isWord = true ∧ ∀ c ∈ i.2, Text.isWhitespace c = true

/-- The second of two neighbours keeps its operand, be it by the gap between them. -/
def KeepsAfterGap (i j : Lexeme × List Char) : Prop :=
  i.2 = [] → Keeps i.1 j.1

/-- Every operand is kept if there is a gap behind each `ss` but the last word. -/
theorem isChain_keepsAfterGap {items : List (Lexeme × List Char)}
    (h : ∀ i ∈ items.dropLast, i.1 = .set Opcode.set.marker → i.2 ≠ []) :
    items.IsChain KeepsAfterGap := by
  induction items with
  | nil => exact .nil
  | cons i items ih =>
    cases items with
    | nil => exact .singleton i
    | cons j items =>
      rw [List.dropLast_cons_cons] at h
      refine .cons_cons ?_ (ih fun k hk => h k (List.mem_cons_of_mem i hk))
      rintro hgap ⟨hword, -⟩
      exact h i List.mem_cons_self hword hgap

theorem dropGaps_gapped_cons {i j : Lexeme × List Char} {items : List (Lexeme × List Char)}
    (h : AreItems (i :: j :: items)) (hk : KeepsAfterGap i j) :
    dropGaps (gapped (i :: j :: items)) = i.1.spelling ++ dropGaps (gapped (j :: items)) := by
  obtain ⟨hw, hg⟩ := h i List.mem_cons_self
  obtain ⟨hv, hgv⟩ := h j (by simp)
  rw [gapped_cons, gapped_cons]
  exact dropGaps_next_word hw hg hv hgv (boundary_gapped items) hk

/-- The gaps go and the words stay, if every word keeps its operand. -/
theorem dropGaps_gapped {items : List (Lexeme × List Char)} (h : AreItems items)
    (hk : items.IsChain KeepsAfterGap) :
    dropGaps (gapped items) = unspaced (items.map Prod.fst) := by
  induction items with
  | nil => exact dropGaps_nil
  | cons i items ih =>
    rw [List.map_cons, unspaced_cons]
    cases items with
    | nil =>
      obtain ⟨hw, hg⟩ := h i List.mem_cons_self
      rw [gapped_cons, gapped, List.flatMap_nil, List.append_nil, dropGaps_last_word hw hg,
        List.map_nil, unspaced_nil, List.append_nil]
    | cons j items =>
      rw [List.isChain_cons_cons] at hk
      rw [dropGaps_gapped_cons h hk.1, ih (fun k hk => h k (List.mem_cons_of_mem i hk)) hk.2]

end TapeMachine.Source
