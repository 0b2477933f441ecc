import TapeMachine.Proofs.Source.Unspaced

/-! # Torn words

A word is written without white space inside of it. But a text is cleaned before its words are
read, and the cleaning drops white space behind whatever looks like a lexeme. So the two parts of
a torn word can come together: `jd 3` is read as `jd3`, because `d` looks like a lexeme, `jx1 2`
as `jx12`, and in `sss r` the second and the third `s` look like one, so that the text is read as
`ss` and `sr`. There are no other tears: without one of these, a text that cleans to words is these
words in one piece, with gaps behind them (`exists_gapped`). -/

namespace TapeMachine.Source
set_option autoImplicit false

/-! ## Words and tears -/

/-- What stands before the digits of a word that has some. -/
inductive Stem : List Char → Prop
  | jump (operand : Char) : Stem [Opcode.jump.marker, operand]
  | label : Stem [Reserved.label]

/-- The text, read word by word from its front, comes to a torn word. -/
inductive Torn : List Char → Prop
  /-- White space stands in front of a digit of a word. -/
  | number {stem ds g rest : List Char} {d : Char} (hstem : Stem stem)
      (hds : ∀ c ∈ ds, c.isDigit = true) (hne : g ≠ [])
      (hg : ∀ c ∈ g, Text.isWhitespace c = true) (hd : d.isDigit = true) :
      Torn (stem ++ (ds ++ (g ++ d :: rest)))
  /-- Right after `ss`, white space stands behind a marker that is no word yet. -/
  | marker {m b : Char} {rest : List Char}
      (hm : m = Opcode.set.marker ∨ m = Opcode.jump.marker ∨ m = Reserved.label)
      (hb : Text.isWhitespace b = true) :
      Torn (Opcode.set.marker :: Opcode.set.marker :: m :: b :: rest)
  | later {w : Lexeme} {g rest : List Char} (hw : w.isWord = true)
      (hg : ∀ c ∈ g, Text.isWhitespace c = true) (h : Torn rest) :
      Torn (w.spelling ++ (g ++ rest))

/-! ## Where digits and gaps end -/

theorem gap_append_inj {g k x y : List Char} (hg : ∀ c ∈ g, Text.isWhitespace c = true)
    (hk : ∀ c ∈ k, Text.isWhitespace c = true) (hx : GapFree x) (hy : GapFree y)
    (h : g ++ x = k ++ y) : g = k ∧ x = y := by
  have hdrop := congrArg (List.dropWhile Text.isWhitespace) h
  rw [List.dropWhile_append_of_pos hg, List.dropWhile_append_of_pos hk, dropWhile_of_gapFree hx,
    dropWhile_of_gapFree hy] at hdrop
  rw [hdrop] at h
  exact ⟨List.append_cancel_right h, hdrop⟩

theorem exists_digit_of_not_digitsEnd {cs : List Char} (h : ¬ DigitsEnd cs) :
    ∃ d rest, cs = d :: rest ∧ d.isDigit = true := by
  cases cs with
  | nil => exact absurd digitsEnd_nil h
  | cons d rest =>
    refine ⟨d, rest, rfl, ?_⟩
    rw [← Bool.not_eq_false]
    exact fun hd => h (digitsEnd_cons hd)

theorem exists_stem {w : Lexeme} (hw : w.isWord = true) :
    (∃ stem ds, Stem stem ∧ (∀ c ∈ ds, c.isDigit = true) ∧ w.spelling = stem ++ ds) ∨
      ∀ rest, scan? (w.spelling ++ rest) = some (w, rest) := by
  cases w with
  | set c =>
    rw [Lexeme.isWord] at hw
    refine .inr fun rest => ?_
    rw [Lexeme.spelling_set, List.cons_append, List.cons_append, scan?_set, set?, if_pos hw]
    rfl
  | right | left | debug => exact .inr fun rest => rfl
  | jumpAddress c ds =>
    rw [Lexeme.isWord, Bool.and_eq_true] at hw
    exact .inl ⟨_, ds, .jump c, isDigit_of_isAddress hw.2, rfl⟩
  | jumpLabel c name =>
    rw [Lexeme.isWord, Bool.and_eq_true] at hw
    exact .inl ⟨_, name, .jump c, isDigit_of_isLabelName hw.2, rfl⟩
  | label name => exact .inl ⟨_, name, .label, isDigit_of_isLabelName hw, rfl⟩

/-! ## The search at the front of a text -/

theorem head?_dropGaps (cs : List Char) : (dropGaps cs).head? = cs.head? := by
  fun_cases dropGaps cs with
  | case1 => rfl
  | case2 c cs w b rest hs hb =>
    rw [← spelling_append_of_scan? hs, w.spelling_eq]
    rfl
  | case3 | case4 => rfl

theorem digitsEnd_dropGaps {cs : List Char} : DigitsEnd (dropGaps cs) ↔ DigitsEnd cs := by
  rw [DigitsEnd, DigitsEnd, head?_dropGaps]

theorem gapFree_dropGaps {cs : List Char} : GapFree (dropGaps cs) ↔ GapFree cs := by
  rw [GapFree, GapFree, head?_dropGaps]

theorem exists_of_dropGaps_eq_cons {c : Char} {cs x : List Char} (h : dropGaps cs = c :: x) :
    ∃ rest, cs = c :: rest := by
  have hhead := head?_dropGaps cs
  rw [h, List.head?_cons] at hhead
  cases cs with
  | nil => cases hhead
  | cons d rest =>
    injection hhead with hhead
    exact ⟨rest, by rw [hhead]⟩

theorem GapAt.arguments_append {c : Char} {cs x : List Char} {w : Lexeme} {g rest : List Char}
    (h : GapAt (c :: cs) w g rest) (hx : dropGaps (c :: cs) = c :: x) :
    w.arguments ++ dropGaps rest = x := by
  rw [h.dropGaps_eq, w.spelling_eq, List.cons_append] at hx
  exact (List.cons.inj hx).2

/-! ## The first word of a text

In each of the following lemmas the cleaned text starts with a word, and then the text itself does,
unless the word is torn. -/

/-- If the search finds a word with a gap behind it, the cleaned text starts with that word. -/
theorem GapAt.eq_word {cs g rest x : List Char} {v w : Lexeme} (hgap : GapAt cs v g rest)
    (hw : w.isWord = true) (hx : DigitsEnd x) (h : dropGaps cs = w.spelling ++ x)
    (ht : ¬ Torn cs) : v = w ∧ dropGaps rest = x := by
  have heq : v.spelling ++ dropGaps rest = w.spelling ++ x := hgap.dropGaps_eq.symm.trans h
  have hread : scan? (v.spelling ++ dropGaps rest) = some (v, dropGaps rest) := by
    by_cases hend : DigitsEnd rest
    · exact scan?_spelling_append hgap.word (digitsEnd_dropGaps.2 hend)
    · obtain ⟨d, left, rfl, hd⟩ := exists_digit_of_not_digitsEnd hend
      obtain ⟨stem, ds, hstem, hds, hspell⟩ | hplain := exists_stem hgap.word
      · refine absurd ?_ ht
        rw [hgap.split, hspell, List.append_assoc]
        exact .number hstem hds hgap.gap_ne hgap.gap hd
      · exact hplain _
  rw [heq, scan?_spelling_append hw hx] at hread
  injection hread with hread
  injection hread with hword hrest
  exact ⟨hword.symm, hrest.symm⟩

theorem exists_digits_of_dropGaps {ds x : List Char} (hds : ∀ c ∈ ds, c.isDigit = true)
    {cs : List Char} (h : dropGaps cs = ds ++ x) : ∃ rest, cs = ds ++ rest ∧ dropGaps rest = x := by
  induction ds generalizing cs with
  | nil => exact ⟨cs, rfl, h⟩
  | cons d ds ih =>
    obtain ⟨rest, rfl⟩ := exists_of_dropGaps_eq_cons h
    have hd := not_mem_markers_of_isDigit (hds d List.mem_cons_self)
    rw [dropGaps_cons (noGap_of_none (scan?_of_not_mem_markers hd rest))] at h
    injection h with _ h
    obtain ⟨left, rfl, hleft⟩ := ih (fun c hc => hds c (List.mem_cons_of_mem d hc)) h
    exact ⟨left, rfl, hleft⟩

theorem not_digitsEnd_digits_append {ds x : List Char} (hds : ∀ c ∈ ds, c.isDigit = true)
    (hx : ¬ DigitsEnd x) : ¬ DigitsEnd (ds ++ x) := by
  cases ds with
  | nil => exact hx
  | cons d ds =>
    intro h
    have hd := h d rfl
    rw [hds d List.mem_cons_self] at hd
    cases hd

theorem NoGap.not_gap {cs g rest : List Char} {w : Lexeme} (h : NoGap cs) (hne : g ≠ [])
    (hg : ∀ c ∈ g, Text.isWhitespace c = true) : scan? cs ≠ some (w, g ++ rest) := by
  intro hs
  exact not_gapFree_gap_append hne hg (h w _ hs)

/-- A jump without a gap behind it: a lexeme that starts at its operand would end among its digits,
and white space there would tear it. -/
theorem exists_rest_of_jump {w : Lexeme} {o : Char} {ds : List Char} (hw : w.isWord = true)
    (hspell : w.spelling = Opcode.jump.marker :: o :: ds) {cs : List Char} {ws : List Lexeme}
    (h : dropGaps cs = w.spelling ++ unspaced ws) (hgap : NoGap cs) (ht : ¬ Torn cs) :
    ∃ rest, cs = w.spelling ++ rest ∧ dropGaps rest = unspaced ws := by
  obtain ⟨hne, hds⟩ := digits_of_jump hw hspell
  rw [hspell] at h
  obtain ⟨cs, rfl⟩ := exists_of_dropGaps_eq_cons h
  rw [dropGaps_cons hgap] at h
  injection h with _ h
  obtain ⟨cs, rfl⟩ := exists_of_dropGaps_eq_cons h
  obtain hno | ⟨v, g, left, hv⟩ := noGap_or_gapAt (o :: cs)
  · rw [dropGaps_cons hno] at h
    injection h with _ h
    obtain ⟨rest, rfl, hrest⟩ := exists_digits_of_dropGaps hds h
    exact ⟨rest, by rw [hspell]; rfl, hrest⟩
  · exfalso
    have hargs := hv.arguments_append h
    have hcs := hv.of_cons.2
    have hdigits := isDigit_of_arguments_append hv.word hne hds hargs
    by_cases hend : DigitsEnd left
    · obtain ⟨heq, -⟩ := digits_append_inj hdigits hds (digitsEnd_dropGaps.2 hend)
        (boundary_unspaced ws).digitsEnd hargs
      have hend : DigitsEnd (g ++ left) := digitsEnd_gap_append hv.gap_ne hv.gap
      have hscan := scan?_spelling_append hw hend
      rw [hspell, List.cons_append, List.cons_append, ← heq, ← hcs] at hscan
      exact hgap.not_gap hv.gap_ne hv.gap hscan
    · obtain ⟨d, left, rfl, hd⟩ := exists_digit_of_not_digitsEnd hend
      rw [hcs] at ht
      exact ht (.number (.jump o) hdigits hv.gap_ne hv.gap hd)

/-- What follows a jump marker that is the operand of a `set` may look like the rest of a jump. If
white space stands behind it, it is a word in one piece or a torn one. -/
theorem arguments_eq_digits {u : Lexeme} {ds g left : List Char} {ws : List Lexeme}
    (hu : u.isWord = true) (hds : ∀ c ∈ ds, c.isDigit = true) (hne : ds ≠ []) (hgne : g ≠ [])
    (hg : ∀ c ∈ g, Text.isWhitespace c = true)
    (h : ds ++ dropGaps left = u.arguments ++ unspaced ws)
    (ht : ¬ Torn (u.marker :: (ds ++ (g ++ left)))) : u.arguments = ds := by
  have hends := (boundary_unspaced ws).digitsEnd
  by_cases hend : DigitsEnd left
  · have hdigits := isDigit_of_arguments_append hu hne hds h.symm
    exact (digits_append_inj hdigits hds hends (digitsEnd_dropGaps.2 hend) h.symm).1
  · have hleft : ¬ DigitsEnd (dropGaps left) := fun hd => hend (digitsEnd_dropGaps.1 hd)
    obtain ⟨e, left, rfl, he⟩ := exists_digit_of_not_digitsEnd hend
    obtain ⟨d, ds, rfl⟩ := List.exists_cons_of_ne_nil hne
    have htail : ∀ c ∈ ds, c.isDigit = true := fun c hc => hds c (List.mem_cons_of_mem d hc)
    exfalso
    cases u with
    | set c =>
      have hrest : ds ++ dropGaps (e :: left) = unspaced ws := (List.cons.inj h).2
      rw [← hrest] at hends
      exact not_digitsEnd_digits_append htail hleft hends
    | right | left | debug =>
      rw [Lexeme.arguments, List.nil_append] at h
      rw [← h] at hends
      exact not_digitsEnd_digits_append hds hleft hends
    | jumpAddress c es | jumpLabel c es => exact ht (.number (.jump d) htail hgne hg he)
    | label name => exact ht (.number .label hds hgne hg he)

/-- A lexeme that starts at the operand of a `set` and has white space behind it ends where the next
word ends. -/
theorem exists_word_of_gapAt_operand {o : Char} {rest g left : List Char} {v : Lexeme}
    {ws : List Lexeme} (hv : GapAt (o :: rest) v g left) (hws : ∀ w ∈ ws, w.isWord = true)
    (hop : isOperand o = true) (h : dropGaps (o :: rest) = o :: unspaced ws)
    (hgap : NoGap (Opcode.set.marker :: o :: rest))
    (ht : ¬ Torn (Opcode.set.marker :: o :: rest)) :
    ∃ u : Lexeme, u.isWord = true ∧ v.arguments = u.spelling := by
  have hargs := hv.arguments_append h
  obtain ⟨hm, hrest⟩ := hv.of_cons
  have hne : v.arguments ≠ [] := by
    intro hnil
    have hscan : scan? (Opcode.set.marker :: o :: rest) = some (.set o, rest) := by
      rw [scan?_set, set?, if_pos hop]
    rw [hrest, hnil] at hscan
    rw [hrest, hnil] at hgap
    exact hgap.not_gap hv.gap_ne hv.gap hscan
  cases ws with
  | nil =>
    rw [unspaced_nil, List.append_eq_nil_iff] at hargs
    exact absurd hargs.1 hne
  | cons u ws =>
    have hu := hws u List.mem_cons_self
    rw [unspaced_cons, u.spelling_eq, List.cons_append] at hargs
    rw [hrest, ← hm] at ht
    refine ⟨u, hu, ?_⟩
    rw [u.spelling_eq]
    have hv' := hv.word
    cases v with
    | right | left | debug => exact absurd rfl hne
    | set m =>
      obtain ⟨rfl, hleft⟩ := List.cons.inj hargs
      obtain ⟨b, g, rfl⟩ := List.exists_cons_of_ne_nil hv.gap_ne
      have hb := hv.gap b List.mem_cons_self
      cases u with
      | right | left | debug => rfl
      | set => exact absurd (.marker (.inl rfl) hb) ht
      | jumpAddress | jumpLabel => exact absurd (.marker (.inr (.inl rfl)) hb) ht
      | label => exact absurd (.marker (.inr (.inr rfl)) hb) ht
    | jumpAddress m ds | jumpLabel m ds =>
      obtain ⟨hdne, hds⟩ := digits_of_jump hv' rfl
      obtain ⟨rfl, hdigits⟩ := List.cons.inj hargs
      have htail : ¬ Torn (u.marker :: (ds ++ (g ++ left))) := by
        intro htorn
        have hset : (Lexeme.set Opcode.jump.marker).isWord = true := rfl
        exact ht (.later (g := []) hset (by simp) htorn)
      rw [Lexeme.arguments, arguments_eq_digits hu hds hdne hv.gap_ne hv.gap hdigits htail]
    | label name =>
      obtain ⟨c, cs, rfl, -, -⟩ := isLabelName_iff.1 hv'
      have hzero := u.isDigit_marker
      rw [← (List.cons.inj hargs).1] at hzero
      cases hzero

theorem exists_rest_of_set {o : Char} (hop : isOperand o = true) {cs : List Char}
    {ws : List Lexeme} (hws : ∀ w ∈ ws, w.isWord = true)
    (h : dropGaps cs = (Lexeme.set o).spelling ++ unspaced ws) (hgap : NoGap cs)
    (ht : ¬ Torn cs) :
    ∃ rest, cs = (Lexeme.set o).spelling ++ rest ∧ dropGaps rest = unspaced ws := by
  rw [Lexeme.spelling_set, List.cons_append, List.cons_append, List.nil_append] at h
  obtain ⟨cs, rfl⟩ := exists_of_dropGaps_eq_cons h
  rw [dropGaps_cons hgap] at h
  injection h with _ h
  obtain ⟨rest, rfl⟩ := exists_of_dropGaps_eq_cons h
  refine ⟨rest, rfl, ?_⟩
  obtain hno | ⟨v, g, left, hv⟩ := noGap_or_gapAt (o :: rest)
  · rw [dropGaps_cons hno] at h
    exact (List.cons.inj h).2
  · obtain ⟨u, hu, hargs⟩ := exists_word_of_gapAt_operand hv hws hop h hgap ht
    rw [hv.of_cons.2, hargs, dropGaps_word_gap hu hv.gap_ne hv.gap hv.free, ← hargs]
    exact hv.arguments_append h

/-- The text starts with the first word of the cleaned text and a gap, which may be empty. -/
theorem exists_rest {w : Lexeme} {ws : List Lexeme} (hw : w.isWord = true)
    (hws : ∀ v ∈ ws, v.isWord = true) {cs : List Char}
    (h : dropGaps cs = w.spelling ++ unspaced ws) (ht : ¬ Torn cs) :
    ∃ g rest, cs = w.spelling ++ (g ++ rest) ∧ (∀ c ∈ g, Text.isWhitespace c = true) ∧
      dropGaps rest = unspaced ws := by
  obtain hno | ⟨v, g, rest, hv⟩ := noGap_or_gapAt cs
  · suffices hrest : ∃ rest, cs = w.spelling ++ rest ∧ dropGaps rest = unspaced ws by
      obtain ⟨rest, hcs, hrest⟩ := hrest
      exact ⟨[], rest, hcs, by simp, hrest⟩
    cases w with
    | set o => exact exists_rest_of_set hw hws h hno ht
    | jumpAddress o ds | jumpLabel o ds => exact exists_rest_of_jump hw rfl h hno ht
    | right | left | debug =>
      obtain ⟨cs, rfl⟩ := exists_of_dropGaps_eq_cons h
      rw [dropGaps_cons hno] at h
      exact ⟨cs, rfl, (List.cons.inj h).2⟩
    | label name =>
      obtain ⟨cs, rfl⟩ := exists_of_dropGaps_eq_cons h
      rw [dropGaps_cons hno] at h
      obtain ⟨rest, rfl, hrest⟩ :=
        exists_digits_of_dropGaps (isDigit_of_isLabelName hw) (List.cons.inj h).2
      exact ⟨rest, rfl, hrest⟩
  · obtain ⟨rfl, hrest⟩ := hv.eq_word hw (boundary_unspaced ws).digitsEnd h ht
    exact ⟨g, rest, hv.split, hv.gap, hrest⟩

/-- Without a torn word, a text that cleans to words is these words with gaps behind them. -/
theorem exists_gapped {ws : List Lexeme} (hws : ∀ w ∈ ws, w.isWord = true) {cs : List Char}
    (h : dropGaps cs = unspaced ws) (ht : ¬ Torn cs) :
    ∃ items, cs = gapped items ∧ AreItems items ∧ items.map Prod.fst = ws := by
  induction ws generalizing cs with
  | nil =>
    refine ⟨[], ?_, by simp [AreItems], rfl⟩
    have hhead := head?_dropGaps cs
    rw [h] at hhead
    exact List.head?_eq_none_iff.1 hhead.symm
  | cons w ws ih =>
    have hw := hws w List.mem_cons_self
    have hrest : ∀ v ∈ ws, v.isWord = true := fun v hv => hws v (List.mem_cons_of_mem w hv)
    rw [unspaced_cons] at h
    obtain ⟨g, rest, rfl, hg, hdrop⟩ := exists_rest hw hrest h ht
    obtain ⟨items, rfl, hitems, rfl⟩ := ih hrest hdrop fun htorn => ht (.later hw hg htorn)
    refine ⟨(w, g) :: items, (gapped_cons (w, g) items).symm, ?_, rfl⟩
    intro i hi
    obtain rfl | hi := List.mem_cons.1 hi
    · exact ⟨hw, hg⟩
    · exact hitems i hi

end TapeMachine.Source
