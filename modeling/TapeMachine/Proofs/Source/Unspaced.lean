import TapeMachine.Proofs.Source.Clean
import TapeMachine.Proofs.Source.Label

/-! # Words without separators

Words can be written one after the other with nothing between them, and a text of such words has
only one reading. But the cleaning of a text looks for a lexeme at every place: in the text of
`ss` and a word with a blank operand it finds the lexeme made of the second `s` and the marker of
the next word, takes the blank operand for a gap behind it and drops it. This is the only harm
(`clean_unspaced`), and it is never repaired: once an operand is lost, the text no longer assembles
to the program of its words. `assemble_unspaced_eq_iff` says exactly when words give the same with
spaces and without. -/

namespace TapeMachine.Source
set_option autoImplicit false

/-! ## Lost operands -/

/-- The text of words without the operands that get lost. -/
def squeezed : List Lexeme → List Char
  | [] => []
  | [w] => w.spelling
  | w :: v :: ws =>
    if Keeps w v then w.spelling ++ squeezed (v :: ws)
    else w.spelling ++ (v.marker :: (v.arguments.tail ++ squeezed ws))

theorem boundary_squeezed (ws : List Lexeme) : Boundary (squeezed ws) := by
  fun_cases squeezed ws with
  | case1 => exact boundary_nil
  | case2 w =>
    have h := boundary_spelling_append w []
    rw [List.append_nil] at h
    exact h
  | case3 w v ws hk => exact boundary_spelling_append w _
  | case4 w v ws hk => exact boundary_spelling_append w _

theorem squeezed_of_isChain {ws : List Lexeme} (h : ws.IsChain Keeps) :
    squeezed ws = unspaced ws := by
  fun_induction squeezed ws with
  | case1 => rfl
  | case2 w => rw [unspaced_singleton]
  | case3 w v ws hk ih =>
    rw [List.isChain_cons_cons] at h
    rw [ih h.2, unspaced_cons w]
  | case4 w v ws hk ih =>
    rw [List.isChain_cons_cons] at h
    exact absurd h.1 hk

/-! ## Cleaning words that follow one another -/

theorem dropGaps_loses {w v : Lexeme} (hv : v.isWord = true) (hk : ¬ Keeps w v)
    {rest : List Char} (hr : Boundary rest) :
    dropGaps (w.spelling ++ (v.spelling ++ rest))
      = w.spelling ++ (v.marker :: (v.arguments.tail ++ dropGaps rest)) := by
  have hlost : w = .set Opcode.set.marker ∧ v.operand? = some ' ' := Decidable.not_not.1 hk
  obtain ⟨rfl, hop⟩ := hlost
  have hd := isDigit_of_mem_tail_arguments hv hop
  rw [dropGaps_lost hop, dropWhile_of_gapFree (gapFree_digits_append hd hr.gapFree),
    dropGaps_digits_append hd]

theorem dropGaps_unspaced {ws : List Lexeme} (h : ∀ w ∈ ws, w.isWord = true) :
    dropGaps (unspaced ws) = squeezed ws := by
  fun_induction squeezed ws with
  | case1 => exact dropGaps_nil
  | case2 w =>
    have hlast := dropGaps_last_word (g := []) (h w List.mem_cons_self) (by simp)
    rw [unspaced_singleton]
    rw [List.append_nil] at hlast
    exact hlast
  | case3 w v ws hk ih =>
    have hv : v.isWord = true := h v (List.mem_cons_of_mem w List.mem_cons_self)
    have hstep := dropGaps_next_word (g := []) (k := []) (h w List.mem_cons_self) (by simp) hv
      (by simp) (boundary_unspaced ws) fun _ => hk
    rw [List.nil_append, List.nil_append, ← unspaced_cons, ← unspaced_cons] at hstep
    rw [hstep, ih fun u hu => h u (List.mem_cons_of_mem w hu)]
  | case4 w v ws hk ih =>
    have hv : v.isWord = true := h v (List.mem_cons_of_mem w List.mem_cons_self)
    rw [unspaced_cons, unspaced_cons, dropGaps_loses hv hk (boundary_unspaced ws),
      ih fun u hu => h u (List.mem_cons_of_mem w (List.mem_cons_of_mem v hu))]

/-- Words that follow one another clean to their text without the lost operands. -/
theorem clean_unspaced {ws : List Lexeme} (h : ∀ w ∈ ws, w.isWritable = true) :
    clean (unspaced ws) = squeezed ws := by
  have hword : ∀ w ∈ ws, w.isWord = true := fun w hw => Lexeme.isWord_of_isWritable (h w hw)
  have hslash : Reserved.commentStart ∉ unspaced ws := by
    intro hc
    obtain ⟨w, hw, hc⟩ := List.mem_flatMap.1 hc
    exact commentStart_not_mem_spelling (h w hw) hc
  have hline : ∀ c ∈ unspaced ws, isLineEnd c = false := by
    intro c hc
    obtain ⟨w, hw, hc⟩ := List.mem_flatMap.1 hc
    exact isLineEnd_of_mem_spelling (hword w hw) hc
  have hjoin := joinLines_plain_append hline []
  rw [List.append_nil, joinLines, List.append_nil] at hjoin
  rw [clean, dropComments_of_not_mem hslash, hjoin, dropGaps_unspaced hword]
  exact dropWhile_of_gapFree (boundary_squeezed ws).gapFree

theorem assemble_unspaced {ws : List Lexeme} (h : ∀ w ∈ ws, w.isWritable = true) :
    assemble (String.ofList (unspaced ws))
      = ((tokens (squeezed ws)).bind parse).map Program.ofList := by
  rw [assemble_eq, String.toList_ofList, clean_unspaced h]

/-! ## A lost operand changes the program -/

/-- Where an operand is lost, the text before it is kept. -/
theorem exists_lost_operand {ws : List Lexeme} (h : ¬ ws.IsChain Keeps) :
    ∃ pre v post, ws = pre ++ v :: post ∧ v.operand? = some ' '
      ∧ squeezed ws = unspaced pre ++ (v.marker :: (v.arguments.tail ++ squeezed post)) := by
  fun_induction squeezed ws with
  | case1 => exact absurd .nil h
  | case2 w => exact absurd (.singleton w) h
  | case3 w v ws hk ih =>
    rw [List.isChain_cons_cons] at h
    obtain ⟨pre, u, post, hws, hop, hsq⟩ := ih fun hc => h ⟨hk, hc⟩
    refine ⟨w :: pre, u, post, ?_, hop, ?_⟩
    · rw [hws, List.cons_append]
    · rw [hsq, unspaced_cons, List.append_assoc]
  | case4 w v ws hk ih =>
    have hlost : w = .set Opcode.set.marker ∧ v.operand? = some ' ' := Decidable.not_not.1 hk
    refine ⟨[w], v, ws, rfl, hlost.2, ?_⟩
    rw [unspaced_singleton]

theorem operand?_of_set? {cs rest : List Char} {w : Lexeme} (h : set? cs = some (w, rest)) :
    ∃ c ∈ cs.head?, w.operand? = some c := by
  unfold set? at h
  split at h
  · cases h
  · next c cs =>
    split at h
    · injection h with h
      injection h with h₁ h₂
      rw [← h₁]
      exact ⟨c, rfl, rfl⟩
    · cases h

theorem operand?_of_jump? {cs rest : List Char} {w : Lexeme} (h : jump? cs = some (w, rest)) :
    ∃ c ∈ cs.head?, w.operand? = some c := by
  unfold jump? at h
  split at h
  · cases h
  · next c cs =>
    split at h
    · split at h
      · injection h with h
        injection h with h₁ h₂
        rw [← h₁]
        exact ⟨c, rfl, rfl⟩
      · obtain ⟨⟨ds, r⟩, ha, he⟩ := Option.map_eq_some_iff.1 h
        injection he with h₁ h₂
        rw [← h₁]
        exact ⟨c, rfl, rfl⟩
    · cases h

theorem operand?_of_scan?_marker {v w : Lexeme} {b : Char} (hv : v.operand? = some b)
    {cs rest : List Char} (h : scan? (v.marker :: cs) = some (w, rest)) :
    ∃ c ∈ cs.head?, w.operand? = some c := by
  cases v with
  | set => exact operand?_of_set? h
  | jumpAddress | jumpLabel => exact operand?_of_jump? h
  | right | left | debug | label => cases hv

theorem slot?_token_of_operand? {w : Lexeme} {c : Char} (h : w.operand? = some c) :
    w.token.slot? = some (some (.ofChar c)) := by
  cases w with
  | set | jumpAddress | jumpLabel =>
    injection h with h
    rw [← h]
    rfl
  | right | left | debug | label => cases h

/-- Where the operand of a word is lost, the tokens go on with one whose operand is not blank. -/
theorem slots_of_tokens_lost {pre : List Lexeme} (hpre : ∀ w ∈ pre, w.isWord = true)
    {v : Lexeme} (hv : v.operand? = some ' ') {cs : List Char} (hcs : GapFree cs)
    {ts : List Token} (h : tokens (unspaced pre ++ (v.marker :: cs)) = .ok ts) :
    ∃ c more, c ≠ ' ' ∧ ts.filterMap Token.slot?
      = (pre.map Lexeme.token).filterMap Token.slot? ++ some (.ofChar c) :: more := by
  have hall := scanAll_words_append hpre (@digitsEnd_cons _ cs v.isDigit_marker)
  rw [tokens, hall] at h
  cases hs : scan? (v.marker :: cs) with
  | none =>
    rw [scanAll_of_none hs] at h
    cases h
  | some r =>
    obtain ⟨w, rest⟩ := r
    obtain ⟨c, hc, hw⟩ := operand?_of_scan?_marker hv hs
    rw [scanAll_of_some hs] at h
    split at h
    · next ws heq =>
      injection heq with h₁ h₂
      injection h with h
      refine ⟨c, ((scanAll rest).1.map Lexeme.token).filterMap Token.slot?, ?_, ?_⟩
      · rintro rfl
        exact absurd (hcs ' ' hc) (by decide)
      · rw [← h, ← h₁, List.map_append, List.filterMap_append, List.map_cons,
          List.filterMap_cons_some (slot?_token_of_operand? hw)]
    · cases h

/-- With an operand lost, a text does not assemble to the instructions of its words. -/
theorem parse_squeezed_ne {ws : List Lexeme} (hw : ∀ w ∈ ws, w.isWord = true)
    (hk : ¬ ws.IsChain Keeps) {ts : List Token} (ht : tokens (squeezed ws) = .ok ts)
    {is : List Instruction} (h : parse (ws.map Lexeme.token) = .ok is) : parse ts ≠ .ok is := by
  intro h'
  obtain ⟨pre, v, post, rfl, hop, hsq⟩ := exists_lost_operand hk
  have hpre : ∀ w ∈ pre, w.isWord = true := fun w hw' => hw w (List.mem_append_left _ hw')
  have hv : v.isWord = true := hw v (List.mem_append_right _ List.mem_cons_self)
  have hgap : GapFree (v.arguments.tail ++ squeezed post) :=
    gapFree_digits_append (isDigit_of_mem_tail_arguments hv hop) (boundary_squeezed post).gapFree
  rw [hsq] at ht
  obtain ⟨c, more, hc, hslots⟩ := slots_of_tokens_lost hpre hop hgap ht
  -- both token lists give the instructions their operands, and they part at the lost one
  have hsame := (operands_of_resolve h).symm.trans (operands_of_resolve h')
  rw [hslots, List.map_append, List.filterMap_append, List.map_cons,
    List.filterMap_cons_some (slot?_token_of_operand? hop)] at hsame
  have hcell := (List.cons.inj (List.append_cancel_left hsame)).1
  injection hcell with hcell
  exact hc (Cell.ofChar_inj.1 hcell).symm

/-! ## When spaces do not matter -/

/-- Words give the same with a space between neighbours and without exactly when no operand is
lost, or when both texts fail for the same unknown label. -/
theorem assemble_unspaced_eq_iff {ws : List Lexeme} (h : ∀ w ∈ ws, w.isWritable = true) :
    assemble (String.ofList (unspaced ws)) = assemble (String.ofList (spaced ws)) ↔
      ws.IsChain Keeps ∨ ∃ name, parse (ws.map Lexeme.token) = .error (.unknownLabel name)
        ∧ (tokens (squeezed ws)).bind parse = .error (.unknownLabel name) := by
  have hword : ∀ w ∈ ws, w.isWord = true := fun w hw => Lexeme.isWord_of_isWritable (h w hw)
  rw [assemble_unspaced h, assemble_spaced h, map_ofList_inj]
  constructor
  · intro heq
    by_cases hk : ws.IsChain Keeps
    · exact Or.inl hk
    · cases hp : parse (ws.map Lexeme.token) with
      | ok is =>
        rw [hp] at heq
        cases ht : tokens (squeezed ws) with
        | error e =>
          rw [ht] at heq
          cases heq
        | ok ts =>
          rw [ht] at heq
          exact absurd heq (parse_squeezed_ne hword hk ht hp)
      | error e =>
        obtain ⟨name, rfl⟩ := unknownLabel_of_resolve hp
        exact Or.inr ⟨name, rfl, heq.trans hp⟩
  · rintro (hk | ⟨name, hp, hs⟩)
    · rw [squeezed_of_isChain hk, tokens_words hword]
      rfl
    · rw [hs, hp]

theorem assemble_unspaced_eq_iff_blank :
    let ws : List Lexeme := [.set 'x', .set ' ', .jumpAddress ' ' ['1', '2'], .set 's', .right]
    (∀ w ∈ ws, w.isWritable = true)
      ∧ assemble (String.ofList (unspaced ws)) = assemble (String.ofList (spaced ws)) := by
  intro ws
  have h : ∀ w ∈ ws, w.isWritable = true := by decide
  exact ⟨h, (assemble_unspaced_eq_iff h).2 (Or.inl (by decide))⟩

/-- The words `ss` and `s ` make a program when a space stands between them and none without. -/
theorem assemble_unspaced_ne_spaced :
    let ws : List Lexeme := [.set 's', .set ' ']
    (∀ w ∈ ws, w.isWritable = true)
      ∧ assemble (String.ofList (unspaced ws)) = .error (.invalidCode 2 's')
      ∧ assemble (String.ofList (spaced ws)) = .ok (.ofList [.set (.mark 's'), .set .blank]) := by
  intro ws
  have h : ∀ w ∈ ws, w.isWritable = true := by decide
  have hscan : scanAll (squeezed ws) = ([.set 's'], ['s']) := by
    have hsqueezed : squeezed ws = ['s', 's', 's'] := rfl
    rw [hsqueezed, scanAll_of_some rfl, scanAll_of_none rfl]
  refine ⟨h, ?_, ?_⟩
  · rw [assemble_unspaced h, tokens, hscan]
    rfl
  · rw [assemble_spaced h]
    rfl

end TapeMachine.Source
