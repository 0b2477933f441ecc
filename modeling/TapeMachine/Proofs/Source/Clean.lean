import TapeMachine.Proofs.Source.Comment
import TapeMachine.Proofs.Source.Gap
import TapeMachine.Source.Assembly

/-! # Texts that clean to words

A text that is words between gaps once its comments are gone cleans to the words alone, if every
word keeps its operand (`clean_of_dropComments`), and is then assembled from their tokens
(`assemble_of_clean`). Words with a space between neighbours are the plainest such text
(`clean_spaced`). No text cleans to one with a slash. -/

namespace TapeMachine.Source
set_option autoImplicit false

/-! ## Words between gaps -/

theorem isWhitespace_joinLines {g : List Char} (h : ∀ c ∈ g, Text.isWhitespace c = true) :
    ∀ c ∈ joinLines g, Text.isWhitespace c = true := by
  intro c hc
  rcases mem_of_mem_joinLines hc with hc | rfl
  · exact h c hc
  · exact Text.isWhitespace_space

theorem head?_gapped_ne_lineFeed (items : List (Lexeme × List Char)) :
    (gapped items).head? ≠ some '\n' := by
  intro hc
  exact absurd ((boundary_gapped items).gapFree '\n' hc) (by decide)

/-- The words with the lines of their gaps joined. -/
def joinGaps (items : List (Lexeme × List Char)) : List (Lexeme × List Char) :=
  items.map fun i => (i.1, joinLines i.2)

/-- Words have no line breaks, so lines are joined gap by gap. -/
theorem joinLines_gapped {items : List (Lexeme × List Char)} (h : AreItems items) :
    joinLines (gapped items) = gapped (joinGaps items) := by
  induction items with
  | nil => rfl
  | cons i items ih =>
    have hword : ∀ c ∈ i.1.spelling, isLineEnd c = false := fun c hc =>
      isLineEnd_of_mem_spelling (h i List.mem_cons_self).1 hc
    rw [gapped_cons, joinLines_plain_append hword,
      joinLines_append (head?_gapped_ne_lineFeed items),
      ih fun j hj => h j (List.mem_cons_of_mem i hj), joinGaps, joinGaps, List.map_cons,
      gapped_cons]

theorem areItems_joinGaps {items : List (Lexeme × List Char)} (h : AreItems items) :
    AreItems (joinGaps items) := by
  intro i hi
  obtain ⟨j, hj, rfl⟩ := List.mem_map.1 hi
  exact ⟨(h j hj).1, isWhitespace_joinLines (h j hj).2⟩

theorem isChain_joinGaps {items : List (Lexeme × List Char)}
    (h : items.IsChain KeepsAfterGap) : (joinGaps items).IsChain KeepsAfterGap := by
  rw [joinGaps, List.isChain_map]
  refine h.imp fun i j hk hgap => hk ?_
  by_contra hne
  exact joinLines_ne_nil hne hgap

theorem map_fst_joinGaps (items : List (Lexeme × List Char)) :
    (joinGaps items).map Prod.fst = items.map Prod.fst := by
  rw [joinGaps, List.map_map]
  rfl

/-- A text that has words between gaps when its comments are gone cleans to the words, if every
word keeps its operand. -/
theorem clean_of_dropComments {cs lead : List Char} {items : List (Lexeme × List Char)}
    (h : dropComments cs = lead ++ gapped items)
    (hlead : ∀ c ∈ lead, Text.isWhitespace c = true) (hitems : AreItems items)
    (hk : items.IsChain KeepsAfterGap) : clean cs = unspaced (items.map Prod.fst) := by
  have hwords : dropGaps (joinLines (gapped items)) = unspaced (items.map Prod.fst) := by
    rw [joinLines_gapped hitems,
      dropGaps_gapped (areItems_joinGaps hitems) (isChain_joinGaps hk), map_fst_joinGaps]
  rw [clean, h, joinLines_append (head?_gapped_ne_lineFeed items),
    dropGaps_whitespace_append (isWhitespace_joinLines hlead), hwords,
    List.dropWhile_append_of_pos (isWhitespace_joinLines hlead)]
  exact dropWhile_of_gapFree (boundary_unspaced _).gapFree

/-! ## Assembling words -/

theorem assemble_eq (text : String) :
    assemble text = ((tokens (clean text.toList)).bind parse).map Program.ofList := by
  have hchars : (normalize text).toList = clean text.toList := String.toList_ofList
  rw [assemble, Assembly.ofText, tokenize, hchars]
  cases tokens (clean text.toList) with
  | error e => rfl
  | ok ts =>
    change Except.map _ (Assembly.ofTokens ts) = (parse ts).map Program.ofList
    rw [Assembly.ofTokens]
    cases parse ts <;> rfl

theorem map_ofList_inj {x y : Except Fault (List Instruction)} :
    x.map Program.ofList = y.map Program.ofList ↔ x = y := by
  constructor
  · intro h
    cases x with
    | error e =>
      cases y with
      | error e' =>
        injection h with h
        rw [h]
      | ok is => cases h
    | ok is =>
      cases y with
      | error e' => cases h
      | ok js =>
        injection h with h
        have hl := congrArg Program.toList h
        rw [Program.toList_ofList, Program.toList_ofList] at hl
        rw [hl]
  · intro h
    rw [h]

theorem assemble_of_clean {text : String} {ws : List Lexeme}
    (h : clean text.toList = unspaced ws) (hw : ∀ w ∈ ws, w.isWord = true) :
    assemble text = (parse (ws.map Lexeme.token)).map Program.ofList := by
  rw [assemble_eq, h, tokens_words hw]
  rfl

theorem exists_words_of_assemble {text : String} {p : Program} (h : assemble text = .ok p) :
    ∃ (ws : List Lexeme) (is : List Instruction), (∀ w ∈ ws, w.isWord = true)
      ∧ unspaced ws = clean text.toList
      ∧ parse (ws.map Lexeme.token) = .ok is ∧ p = .ofList is := by
  rw [assemble_eq] at h
  cases hts : tokens (clean text.toList) with
  | error e =>
    rw [hts] at h
    cases h
  | ok ts =>
    obtain ⟨ws, hws, hchars, rfl⟩ := exists_words_of_tokens hts
    rw [hts] at h
    change (parse (ws.map Lexeme.token)).map Program.ofList = .ok p at h
    cases his : parse (ws.map Lexeme.token) with
    | error e =>
      rw [his] at h
      cases h
    | ok is =>
      rw [his] at h
      injection h with h
      exact ⟨ws, is, hws, hchars, his, h.symm⟩

/-! ## Words with a space between neighbours -/

/-- The text of words with a space between neighbours. -/
def spaced (ws : List Lexeme) : List Char :=
  [' '].intercalate (ws.map Lexeme.spelling)

def spacedItems : List Lexeme → List (Lexeme × List Char)
  | [] => []
  | [w] => [(w, [])]
  | w :: v :: ws => (w, [' ']) :: spacedItems (v :: ws)

theorem gapped_spacedItems (ws : List Lexeme) : gapped (spacedItems ws) = spaced ws := by
  fun_induction spacedItems ws with
  | case1 => rfl
  | case2 w => simp [gapped, spaced]
  | case3 w v ws ih =>
    rw [gapped_cons, ih, spaced, spaced, List.map_cons, List.map_cons, List.map_cons,
      List.intercalate_cons_cons, List.append_assoc]

theorem map_fst_spacedItems (ws : List Lexeme) : (spacedItems ws).map Prod.fst = ws := by
  fun_induction spacedItems ws with
  | case1 => rfl
  | case2 w => rfl
  | case3 w v ws ih => rw [List.map_cons, ih]

theorem gap_of_mem_spacedItems {ws : List Lexeme} :
    ∀ i ∈ spacedItems ws, i.2 = [] ∨ i.2 = [' '] := by
  fun_induction spacedItems ws with
  | case1 => simp
  | case2 w => simp
  | case3 w v ws ih =>
    intro i hi
    rcases List.mem_cons.1 hi with rfl | hi
    · exact Or.inr rfl
    · exact ih i hi

theorem gap_of_mem_dropLast_spacedItems {ws : List Lexeme} :
    ∀ i ∈ (spacedItems ws).dropLast, i.2 ≠ [] := by
  fun_induction spacedItems ws with
  | case1 => simp
  | case2 w => simp
  | case3 w v ws ih =>
    intro i hi
    have hne : spacedItems (v :: ws) ≠ [] := by cases ws <;> simp [spacedItems]
    rw [List.dropLast_cons_of_ne_nil hne] at hi
    rcases List.mem_cons.1 hi with rfl | hi
    · exact List.cons_ne_nil _ _
    · exact ih i hi

theorem commentStart_not_mem_spaced {ws : List Lexeme} (h : ∀ w ∈ ws, w.isWritable = true) :
    Reserved.commentStart ∉ spaced ws := by
  rw [← gapped_spacedItems, gapped]
  intro hc
  obtain ⟨i, hi, hc⟩ := List.mem_flatMap.1 hc
  have hw : i.1 ∈ ws := by
    rw [← map_fst_spacedItems ws]
    exact List.mem_map_of_mem hi
  rcases List.mem_append.1 hc with hc | hc
  · exact commentStart_not_mem_spelling (h i.1 hw) hc
  · rcases gap_of_mem_spacedItems i hi with hg | hg
    · rw [hg] at hc
      cases hc
    · rw [hg, List.mem_singleton] at hc
      exact absurd hc (by decide)

theorem areItems_spacedItems {ws : List Lexeme} (h : ∀ w ∈ ws, w.isWord = true) :
    AreItems (spacedItems ws) := by
  intro i hi
  have hmem : i.1 ∈ ws := by
    rw [← map_fst_spacedItems ws]
    exact List.mem_map_of_mem hi
  refine ⟨h i.1 hmem, ?_⟩
  rcases gap_of_mem_spacedItems i hi with hg | hg
  · simp [hg]
  · rw [hg]
    exact List.forall_mem_singleton.2 Text.isWhitespace_space

theorem clean_spaced {ws : List Lexeme} (h : ∀ w ∈ ws, w.isWritable = true) :
    clean (spaced ws) = unspaced ws := by
  have hcomments : dropComments (spaced ws) = [] ++ gapped (spacedItems ws) := by
    rw [dropComments_of_not_mem (commentStart_not_mem_spaced h), gapped_spacedItems,
      List.nil_append]
  have hitems : AreItems (spacedItems ws) :=
    areItems_spacedItems fun w hw => Lexeme.isWord_of_isWritable (h w hw)
  have hk : (spacedItems ws).IsChain KeepsAfterGap :=
    isChain_keepsAfterGap fun i hi _ => gap_of_mem_dropLast_spacedItems i hi
  rw [clean_of_dropComments hcomments (by simp) hitems hk, map_fst_spacedItems]

theorem assemble_spaced {ws : List Lexeme} (h : ∀ w ∈ ws, w.isWritable = true) :
    assemble (String.ofList (spaced ws))
      = (parse (ws.map Lexeme.token)).map Program.ofList := by
  apply assemble_of_clean
  · rw [String.toList_ofList, clean_spaced h]
  · exact fun w hw => Lexeme.isWord_of_isWritable (h w hw)

/-! ## No slash is left -/

theorem mem_of_mem_dropGaps {cs : List Char} {c : Char} (h : c ∈ dropGaps cs) : c ∈ cs := by
  fun_induction dropGaps cs with
  | case1 => exact h
  | case2 d cs w b rest hs hb ih =>
    rw [← spelling_append_of_scan? hs]
    rcases List.mem_append.1 h with h | h
    · exact List.mem_append_left _ h
    · exact List.mem_append_right _
        (List.mem_cons_of_mem b ((List.dropWhile_suffix _).subset (ih h)))
  | case3 d cs w b rest hs hb ih =>
    rcases List.mem_cons.1 h with rfl | h
    · exact List.mem_cons_self
    · exact List.mem_cons_of_mem d (ih h)
  | case4 d cs hs ih =>
    rcases List.mem_cons.1 h with rfl | h
    · exact List.mem_cons_self
    · exact List.mem_cons_of_mem d (ih h)

theorem commentStart_not_mem_clean (cs : List Char) : Reserved.commentStart ∉ clean cs := by
  intro h
  have hgaps := mem_of_mem_dropGaps ((List.dropWhile_suffix _).subset h)
  rcases mem_of_mem_joinLines hgaps with hc | hc
  · exact commentStart_not_mem_dropLineComments _ hc
  · exact absurd hc (by decide)

end TapeMachine.Source
