import TapeMachine.Proofs.Source.RoundTrip

/-! # The canonical text as a line

A program that was assembled from a text has only addresses that its canonical text can spell: a
literal is cut off at the largest address, and a label stands for no more than the number of
instructions, which the length of the text bounds. A line break behind the canonical text is a gap
behind its last word, or the whole text if there is no word. So the canonical text of the program,
as a line, assembles to the program (`assemble_text_line`). -/

namespace TapeMachine.Source
set_option autoImplicit false

/-! ## Cleaning makes no text longer -/

theorem length_joinLines_le (cs : List Char) : (joinLines cs).length ≤ cs.length := by
  fun_induction joinLines cs with
  | case1 rest ih => exact Nat.le_succ_of_le (Nat.succ_le_succ ih)
  | case2 rest ih => exact Nat.succ_le_succ ih
  | case3 c rest _ _ ih => exact Nat.succ_le_succ ih
  | case4 => exact Nat.le_refl _

theorem length_dropGaps_le (cs : List Char) : (dropGaps cs).length ≤ cs.length := by
  fun_induction dropGaps cs with
  | case1 => exact Nat.le_refl _
  | case2 c cs w b rest hs hb ih =>
    have hrest := (List.dropWhile_suffix Text.isWhitespace (l := rest)).length_le
    rw [← spelling_append_of_scan? hs, List.length_append, List.length_append, List.length_cons]
    omega
  | case3 c cs w b rest hs hb ih => exact Nat.succ_le_succ ih
  | case4 c cs hs ih => exact Nat.succ_le_succ ih

theorem length_clean_le (cs : List Char) : (clean cs).length ≤ cs.length :=
  calc (clean cs).length
    _ ≤ (dropGaps (joinLines (dropComments cs))).length := (List.dropWhile_suffix _).length_le
    _ ≤ (joinLines (dropComments cs)).length := length_dropGaps_le _
    _ ≤ (dropComments cs).length := length_joinLines_le _
    _ ≤ cs.length := (dropComments_sublist cs).length_le

theorem length_toList_le_utf8ByteSize (text : String) :
    text.toList.length ≤ text.utf8ByteSize := by
  induction text using String.push_induction with
  | empty => exact Nat.le_refl _
  | push text c ih =>
    have hc := c.utf8Size_pos
    rw [String.toList_push, List.length_append, List.length_singleton, String.utf8ByteSize_push]
    omega

/-! ## Addresses of an assembled program -/

theorem length_le_length_unspaced (ws : List Lexeme) : ws.length ≤ (unspaced ws).length := by
  induction ws with
  | nil => exact Nat.le_refl _
  | cons w ws ih =>
    have hw := List.length_pos_iff.2 w.spelling_ne_nil
    rw [unspaced_cons, List.length_append, List.length_cons]
    omega

theorem exists_token_of_resolve {labels : Labels} {ts : List Token} {is : List Instruction}
    (h : resolve labels ts = .ok is) {i : Instruction} (hi : i ∈ is) :
    ∃ t ∈ ts, t.instruction? labels = .ok (some i) := by
  have hall := forall₂_of_resolve h
  obtain ⟨k, hk, rfl⟩ := List.mem_iff_getElem.1 hi
  have hk' : k < (ts.filter Token.hasInstruction).length := by
    rw [hall.length_eq]
    exact hk
  exact ⟨_, List.mem_of_mem_filter (List.get_mem _ ⟨k, hk'⟩), hall.get hk' hk⟩

theorem Token.exists_jump_of_target? {labels : Labels} {t : Token} {i : Instruction} {n : Nat}
    (h : t.instruction? labels = .ok (some i)) (hn : n ∈ i.target?) :
    ∃ operand target, t = .jump operand target ∧ target.resolve labels = .ok n := by
  cases t with
  | set | right | left | debug =>
    injection h with h
    injection h with h
    rw [← h] at hn
    cases hn
  | label => cases h
  | jump operand target =>
    rw [Token.instruction?] at h
    split at h
    · next m hm =>
      injection h with h
      injection h with h
      rw [← h] at hn
      injection hn with hn
      exact ⟨operand, target, rfl, hn ▸ hm⟩
    · cases h

/-- A label stands for the address of an instruction or for the end of the program. -/
theorem le_length_of_label {ts : List Token} {is : List Instruction} (h : parse ts = .ok is)
    {name : String} {n : Nat} (hn : (Target.label name).resolve (Labels.ofTokens ts) = .ok n) :
    n ≤ is.length := by
  rw [Target.resolve, Labels.getElem?_ofTokens] at hn
  cases hplace : afterLabel? name ts with
  | none =>
    rw [hplace] at hn
    cases hn
  | some place =>
    rw [hplace] at hn
    injection hn with hn
    rw [← hn, ← (forall₂_of_resolve h).length_eq]
    exact rank_le Token.hasInstruction ts place

theorem Lexeme.address_le_of_token {w : Lexeme} {operand : Char} {n : Nat}
    (h : w.token = .jump operand (.address n)) : n ≤ maxAddress := by
  cases w with
  | set | right | left | debug | jumpLabel | label => cases h
  | jumpAddress c digits =>
    injection h with _ h
    injection h with h
    rw [← h]
    exact Nat.min_le_right _ _

theorem size_le_of_assemble {text : String} {p : Program} (h : assemble text = .ok p) :
    p.size ≤ text.utf8ByteSize := by
  obtain ⟨ws, is, -, hchars, his, rfl⟩ := exists_words_of_assemble h
  calc (Program.ofList is).size
    _ = is.length := Program.size_eq_length _
    _ = ((ws.map Lexeme.token).filter Token.hasInstruction).length :=
        (forall₂_of_resolve his).length_eq.symm
    _ ≤ (ws.map Lexeme.token).length := List.length_filter_le _ _
    _ = ws.length := List.length_map _
    _ ≤ (unspaced ws).length := length_le_length_unspaced ws
    _ = (clean text.toList).length := congrArg List.length hchars
    _ ≤ text.toList.length := length_clean_le _
    _ ≤ text.utf8ByteSize := length_toList_le_utf8ByteSize text

/-- The bytes of a text can be counted in a machine word, and then so can the instructions that a
label may stand for. -/
theorem isAddressable_of_assemble {text : String} {p : Program} (h : assemble text = .ok p)
    (hsize : text.utf8ByteSize < UInt64.size) : p.IsAddressable := by
  have hp := size_le_of_assemble h
  obtain ⟨ws, is, -, -, his, rfl⟩ := exists_words_of_assemble h
  intro i hi n hn
  obtain ⟨t, ht, hinstr⟩ := exists_token_of_resolve his hi
  obtain ⟨operand, target, rfl, hres⟩ := Token.exists_jump_of_target? hinstr hn
  cases target with
  | address m =>
    injection hres with hres
    obtain ⟨w, -, hw⟩ := List.mem_map.1 ht
    rw [← hres]
    exact Lexeme.address_le_of_token hw
  | label name =>
    have hlabel := le_length_of_label his hres
    rw [Program.size_eq_length, Program.toList_ofList] at hp
    rw [maxAddress]
    omega

/-! ## Words with a line break behind them -/

theorem gapped_append (items more : List (Lexeme × List Char)) :
    gapped (items ++ more) = gapped items ++ gapped more :=
  List.flatMap_append

theorem spaced_append_singleton (ws : List Lexeme) (w : Lexeme) :
    spaced (ws ++ [w]) = gapped (ws.map fun v => (v, [' '])) ++ w.spelling := by
  induction ws with
  | nil => simp [spaced, gapped]
  | cons v ws ih =>
    have hne : (ws ++ [w]).map Lexeme.spelling ≠ [] := by simp
    rw [List.cons_append, spaced, List.map_cons, List.intercalate_cons_of_ne_nil hne, ← spaced, ih]
    simp [gapped]

/-- A line break behind the words is the gap of the last word; without words it is the lead of an
empty text. -/
theorem clean_line {ws : List Lexeme} (h : ∀ w ∈ ws, w.isWritable = true) :
    clean (spaced ws ++ ['\n']) = unspaced ws := by
  have hslash : Reserved.commentStart ∉ spaced ws ++ ['\n'] := by
    rw [List.mem_append, not_or]
    exact ⟨commentStart_not_mem_spaced h, by decide⟩
  have hcomments := dropComments_of_not_mem hslash
  obtain rfl | ⟨ws, w, rfl⟩ := List.eq_nil_or_concat' ws
  · have hempty : dropComments (spaced [] ++ ['\n']) = ['\n'] ++ gapped [] := hcomments
    have hlead : ∀ c ∈ ['\n'], Text.isWhitespace c = true :=
      List.forall_mem_singleton.2 (by decide)
    exact clean_of_dropComments hempty hlead (by simp [AreItems]) .nil
  · let items := ws.map (fun v => (v, [' '])) ++ [(w, ['\n'])]
    have hitems : ∀ i ∈ items, i.1 ∈ ws ++ [w] ∧ (i.2 = [' '] ∨ i.2 = ['\n']) := by
      intro i hi
      obtain hi | hi := List.mem_append.1 hi
      · obtain ⟨v, hv, rfl⟩ := List.mem_map.1 hi
        exact ⟨List.mem_append_left _ hv, .inl rfl⟩
      · rw [List.mem_singleton.1 hi]
        exact ⟨by simp, .inr rfl⟩
    have hsplit : dropComments (spaced (ws ++ [w]) ++ ['\n']) = [] ++ gapped items := by
      rw [hcomments, spaced_append_singleton, gapped_append, List.append_assoc]
      simp [gapped]
    have hare : AreItems items := by
      intro i hi
      refine ⟨Lexeme.isWord_of_isWritable (h i.1 (hitems i hi).1), ?_⟩
      obtain hg | hg := (hitems i hi).2 <;> rw [hg, List.forall_mem_singleton] <;> decide
    have hk : items.IsChain KeepsAfterGap := by
      apply isChain_keepsAfterGap
      intro i hi _
      obtain hg | hg := (hitems i ((List.dropLast_subset _) hi)).2 <;> simp [hg]
    have hfst : items.map Prod.fst = ws ++ [w] := by simp [items, Function.comp_def]
    rw [clean_of_dropComments hsplit (by simp) hare hk, hfst]

/-- What some text assembles to, its canonical text with a line break behind it assembles to. -/
theorem assemble_text_line {text : String} {p : Program} (h : assemble text = .ok p)
    (hsize : text.utf8ByteSize < UInt64.size) : assemble (p.text ++ "\n") = .ok p := by
  have ho := isWritable_of_assemble h
  have ht := isAddressable_of_assemble h hsize
  have hwords := isWritable_of_mem_words ho
  have hchars : (p.text ++ "\n").toList = spaced (p.toList.map wordOf) ++ ['\n'] := by
    rw [String.toList_append, Program.text, String.toList_ofList, spaced_wordOf]
    rfl
  rw [assemble_of_clean (hchars ▸ clean_line hwords)
    fun w hw => Lexeme.isWord_of_isWritable (hwords w hw), parse, resolve_tokens_wordOf _ ho ht]
  rfl

end TapeMachine.Source
