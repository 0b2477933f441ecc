import TapeMachine.Proofs.Source.Torn

/-! # Texts that are read as written

Where a text is words in one piece with gaps behind them, the cleaning drops these gaps and nothing
else, unless it takes a blank operand after `ss` for a gap, and then the text is read as other
tokens (`isChain_of_tokens`). A torn text is not such words (`Torn.ne_gapped`). So a text that is
read at all is read as it is written exactly when no word is torn (`readsAs_iff_not_torn`). -/

namespace TapeMachine.Source
set_option autoImplicit false

/-! ## Words in one piece -/

theorem tokens_word_append {w : Lexeme} {x : List Char} (hw : w.isWord = true) (hx : DigitsEnd x)
    {ts : List Token} : tokens (w.spelling ++ x) = .ok (w.token :: ts) ↔ tokens x = .ok ts := by
  rw [tokens, tokens, scanAll_of_some (scan?_spelling_append hw hx)]
  obtain ⟨ws, left⟩ := scanAll x
  cases left <;> simp

/-- Right after `ss`, the search takes a blank operand for a gap, and the token of its word is
another one. -/
theorem tokens_lost_ne {v : Lexeme} {g : List Char} {items : List (Lexeme × List Char)}
    (hop : v.operand? = some ' ') :
    tokens (dropGaps (gapped ((.set Opcode.set.marker, []) :: (v, g) :: items))) ≠
      .ok (.set Opcode.set.marker :: v.token :: items.map fun i => i.1.token) := by
  intro h
  rw [gapped_cons, gapped_cons, List.nil_append, dropGaps_lost hop,
    ← unspaced_singleton (.set Opcode.set.marker)] at h
  have hfree : GapFree (dropGaps ((v.arguments.tail ++ (g ++ gapped items)).dropWhile
      Text.isWhitespace)) := by
    rw [gapFree_dropGaps]
    exact gapFree_dropWhile _
  have hset : ∀ w ∈ [Lexeme.set Opcode.set.marker], w.isWord = true := by decide
  obtain ⟨c, more, hc, hslots⟩ := slots_of_tokens_lost hset hop hfree h
  have hslot : (Token.set Opcode.set.marker).slot? = some (some (.ofChar Opcode.set.marker)) := rfl
  rw [List.filterMap_cons_some hslot, List.filterMap_cons_some (slot?_token_of_operand? hop)]
    at hslots
  have hcell := Option.some.inj (List.cons.inj (List.cons.inj hslots).2).1
  exact hc (Cell.ofChar_inj.1 hcell).symm

theorem isChain_of_tokens {items : List (Lexeme × List Char)} (hitems : AreItems items)
    (h : tokens (dropGaps (gapped items)) = .ok (items.map fun i => i.1.token)) :
    items.IsChain KeepsAfterGap := by
  induction items with
  | nil => exact .nil
  | cons i items ih =>
    cases items with
    | nil => exact .singleton i
    | cons j items =>
      have hrest : AreItems (j :: items) := fun k hk => hitems k (List.mem_cons_of_mem i hk)
      -- An operand lost right here would show in the tokens; without it the rest is on its own.
      have hk : KeepsAfterGap i j := by
        obtain ⟨w, g⟩ := i
        rintro rfl ⟨rfl, hop⟩
        exact tokens_lost_ne hop h
      have hend : DigitsEnd (dropGaps (gapped (j :: items))) :=
        digitsEnd_dropGaps.2 (boundary_gapped _).digitsEnd
      rw [dropGaps_gapped_cons hitems hk, List.map_cons,
        tokens_word_append (hitems i List.mem_cons_self).1 hend] at h
      exact .cons_cons hk (ih hrest h)

/-! ## Torn texts have no words in one piece -/

theorem Torn.boundary {cs : List Char} (h : Torn cs) : Boundary cs := by
  cases h with
  | number hstem =>
    cases hstem with
    | jump c => exact ⟨digitsEnd_cons rfl, gapFree_cons (by decide)⟩
    | label => exact ⟨digitsEnd_cons rfl, gapFree_cons (by decide)⟩
  | marker => exact ⟨digitsEnd_cons rfl, gapFree_cons (by decide)⟩
  | later => exact boundary_spelling_append _ _

theorem word_append_inj {v w : Lexeme} {x y : List Char} (hv : v.isWord = true)
    (hw : w.isWord = true) (hx : DigitsEnd x) (hy : DigitsEnd y)
    (h : v.spelling ++ x = w.spelling ++ y) : v = w ∧ x = y := by
  have hscan := scan?_spelling_append hv hx
  rw [h, scan?_spelling_append hw hy] at hscan
  injection hscan with hscan
  injection hscan with hword hrest
  exact ⟨hword.symm, hrest.symm⟩

/-- The gap behind the digits of a word is not followed by a digit. -/
theorem digits_gap_ne {ds es g k rest : List Char} {d : Char}
    {items : List (Lexeme × List Char)} (hds : ∀ c ∈ ds, c.isDigit = true)
    (hes : ∀ c ∈ es, c.isDigit = true) (hne : g ≠ [])
    (hg : ∀ c ∈ g, Text.isWhitespace c = true) (hk : ∀ c ∈ k, Text.isWhitespace c = true)
    (hd : d.isDigit = true) : ds ++ (g ++ d :: rest) ≠ es ++ (k ++ gapped items) := by
  intro h
  have hbound := boundary_gapped items
  obtain ⟨-, hgap⟩ := digits_append_inj hds hes (digitsEnd_gap_append hne hg)
    (digitsEnd_gap_boundary hk hbound) h
  have hfree : GapFree (d :: rest) := gapFree_cons (isWhitespace_of_isDigit hd)
  obtain ⟨-, hrest⟩ := gap_append_inj hg hk hfree hbound.gapFree hgap
  have hend := hbound.digitsEnd
  rw [← hrest] at hend
  rw [hend d rfl] at hd
  cases hd

theorem Stem.ne_gapped {stem ds g rest : List Char} {d : Char} (hstem : Stem stem)
    (hds : ∀ c ∈ ds, c.isDigit = true) (hne : g ≠ [])
    (hg : ∀ c ∈ g, Text.isWhitespace c = true) (hd : d.isDigit = true)
    {items : List (Lexeme × List Char)} (hitems : AreItems items) :
    stem ++ (ds ++ (g ++ d :: rest)) ≠ gapped items := by
  intro h
  cases items with
  | nil => cases hstem <;> cases h
  | cons i items =>
    obtain ⟨w, k⟩ := i
    obtain ⟨hw, hk⟩ := hitems (w, k) List.mem_cons_self
    rw [gapped_cons] at h
    cases hstem with
    | jump c =>
      cases w with
      | jumpAddress o es | jumpLabel o es =>
        have hes := (digits_of_jump hw rfl).2
        have htail := (List.cons.inj (List.cons.inj h).2).2
        exact digits_gap_ne hds hes hne hg hk hd htail
      | set | right | left | debug | label => cases (List.cons.inj h).1
    | label =>
      cases w with
      | label name =>
        exact digits_gap_ne hds (isDigit_of_isLabelName hw) hne hg hk hd (List.cons.inj h).2
      | set | right | left | debug | jumpAddress | jumpLabel => cases (List.cons.inj h).1

theorem operand?_of_arguments_append {v : Lexeme} {b : Char} {x rest : List Char}
    (hv : v.isWord = true)
    (hm : v.marker = Opcode.set.marker ∨ v.marker = Opcode.jump.marker ∨ v.marker = Reserved.label)
    (hb : Text.isWhitespace b = true) (h : v.arguments ++ x = b :: rest) :
    v.operand? = some ' ' := by
  cases ha : v.arguments with
  | nil =>
    cases v with
    | right | left | debug => simp [Lexeme.marker, Opcode.marker, Reserved.label] at hm
    | set | jumpAddress | jumpLabel => cases ha
    | label name =>
      rw [Lexeme.arguments] at ha
      rw [ha] at hv
      cases hv
  | cons a as =>
    rw [ha] at h
    obtain rfl : a = b := (List.cons.inj h).1
    exact operand?_of_isWhitespace hv (ha ▸ List.mem_cons_self) hb

/-- White space behind a marker right after `ss` would be the operand of the marker's word, which
that word does not keep. -/
theorem marker_ne_gapped {m b : Char} {rest : List Char}
    (hm : m = Opcode.set.marker ∨ m = Opcode.jump.marker ∨ m = Reserved.label)
    (hb : Text.isWhitespace b = true) {items : List (Lexeme × List Char)}
    (hitems : AreItems items) (hk : items.IsChain KeepsAfterGap) :
    Opcode.set.marker :: Opcode.set.marker :: m :: b :: rest ≠ gapped items := by
  intro h
  have hspace : Text.isWhitespace m = false := by
    obtain rfl | rfl | rfl := hm <;> decide
  cases items with
  | nil => cases h
  | cons i items =>
    obtain ⟨w, k⟩ := i
    obtain ⟨hw, hgap⟩ := hitems (w, k) List.mem_cons_self
    rw [gapped_cons] at h
    have hset : (Lexeme.set Opcode.set.marker).isWord = true := rfl
    have hfree : GapFree (m :: b :: rest) := gapFree_cons hspace
    have hend : DigitsEnd (m :: b :: rest) := by
      apply digitsEnd_cons
      obtain rfl | rfl | rfl := hm <;> rfl
    have hbound := boundary_gapped items
    obtain ⟨rfl, hrest⟩ :=
      word_append_inj hset hw hend (digitsEnd_gap_boundary hgap hbound) h
    obtain ⟨rfl, hnext⟩ := gap_append_inj (g := []) (by simp) hgap hfree hbound.gapFree hrest
    cases items with
    | nil => cases hnext
    | cons j items =>
      rw [gapped_cons, j.1.spelling_eq] at hnext
      obtain ⟨rfl, hargs⟩ := List.cons.inj hnext
      have hj := (hitems j (by simp)).1
      have hop := operand?_of_arguments_append hj hm hb hargs.symm
      rw [List.isChain_cons_cons] at hk
      exact hk.1 rfl ⟨rfl, hop⟩

theorem Torn.ne_gapped {cs : List Char} (h : Torn cs) {items : List (Lexeme × List Char)}
    (hitems : AreItems items) (hk : items.IsChain KeepsAfterGap) : cs ≠ gapped items := by
  induction h generalizing items with
  | number hstem hds hne hg hd => exact hstem.ne_gapped hds hne hg hd hitems
  | marker hm hb => exact marker_ne_gapped hm hb hitems hk
  | @later w g rest hw hg h ih =>
    intro heq
    cases items with
    | nil =>
      rw [w.spelling_eq] at heq
      cases heq
    | cons i items =>
      obtain ⟨v, k⟩ := i
      obtain ⟨hv, hgap⟩ := hitems (v, k) List.mem_cons_self
      have hbound := boundary_gapped items
      rw [gapped_cons] at heq
      -- The first word and its gap are the same on both sides, so the torn rest is the other rest.
      obtain ⟨-, hrest⟩ := word_append_inj hw hv (digitsEnd_gap_boundary hg h.boundary)
        (digitsEnd_gap_boundary hgap hbound) heq
      exact ih (fun j hj => hitems j (List.mem_cons_of_mem _ hj)) hk.tail
        (gap_append_inj hg hgap h.boundary.gapFree hbound.gapFree hrest).2

/-! ## When a text is read as it is written -/

/-- The text is white space and then words with white space behind them, each word in one piece.
The tokens of the words are `ts`. -/
def ReadsAs (cs : List Char) (ts : List Token) : Prop :=
  ∃ (lead : List Char) (items : List (Lexeme × List Char)),
    cs = lead ++ gapped items ∧ (∀ c ∈ lead, Text.isWhitespace c = true) ∧ AreItems items ∧
      items.map (fun i => i.1.token) = ts

theorem clean_eq_dropGaps {cs : List Char} (h : Reserved.commentStart ∉ cs) :
    clean cs = dropGaps ((joinLines cs).dropWhile Text.isWhitespace) := by
  have hlead : ∀ c ∈ (joinLines cs).takeWhile Text.isWhitespace, Text.isWhitespace c = true :=
    List.all_eq_true.1 List.all_takeWhile
  have hfree : GapFree (dropGaps ((joinLines cs).dropWhile Text.isWhitespace)) := by
    rw [gapFree_dropGaps]
    exact gapFree_dropWhile _
  have hsplit := List.takeWhile_append_dropWhile (p := Text.isWhitespace) (l := joinLines cs)
  rw [clean, dropComments_of_not_mem h, ← hsplit, dropGaps_whitespace_append hlead,
    List.dropWhile_append_of_pos hlead, dropWhile_of_gapFree hfree, hsplit]

/-- A text without comments that has tokens at all is read as it is written, word by word and each
word in one piece, exactly when no word is torn. -/
theorem readsAs_iff_not_torn {text : String} (hslash : Reserved.commentStart ∉ text.toList)
    {ts : List Token} (h : tokenize (normalize text) = .ok ts) :
    ReadsAs (joinLines text.toList) ts ↔
      ¬ Torn ((joinLines text.toList).dropWhile Text.isWhitespace) := by
  rw [tokenize, normalize, String.toList_ofList, clean_eq_dropGaps hslash] at h
  constructor
  · rintro ⟨lead, items, hcs, hlead, hitems, rfl⟩ htorn
    rw [hcs, List.dropWhile_append_of_pos hlead,
      dropWhile_of_gapFree (boundary_gapped items).gapFree] at h htorn
    exact htorn.ne_gapped hitems (isChain_of_tokens hitems h) rfl
  · intro htorn
    obtain ⟨ws, hws, hspell, rfl⟩ := exists_words_of_tokens h
    obtain ⟨items, hcs, hitems, rfl⟩ := exists_gapped hws hspell.symm htorn
    refine ⟨(joinLines text.toList).takeWhile Text.isWhitespace, items, ?_,
      List.all_eq_true.1 List.all_takeWhile, hitems, by rw [List.map_map]; rfl⟩
    rw [← hcs, List.takeWhile_append_dropWhile]

theorem readsAs_iff_not_torn_after_ss :
    let ts : List Token := [.set 's', .set 'r']
    Reserved.commentStart ∉ "sss r".toList ∧ tokenize (normalize "sss r") = .ok ts
      ∧ ¬ ReadsAs (joinLines "sss r".toList) ts := by
  intro ts
  have hslash : Reserved.commentStart ∉ "sss r".toList := by decide
  have htokens : tokenize (normalize "sss r") = .ok ts := by decide +kernel
  have hcs : (joinLines "sss r".toList).dropWhile Text.isWhitespace =
      ['s', 's', 's', ' ', 'r'] := by decide
  have htorn : Torn ((joinLines "sss r".toList).dropWhile Text.isWhitespace) := by
    rw [hcs]
    exact .marker (.inl rfl) Text.isWhitespace_space
  exact ⟨hslash, htokens, fun h => (readsAs_iff_not_torn hslash htokens).1 h htorn⟩

/-- The text `jd 3` makes a program, though no words in one piece make the text. -/
theorem assemble_torn_jump :
    assemble "jd 3" = .ok (.ofList [.jump (.mark 'd') 3])
      ∧ ∀ ts, ¬ ReadsAs (joinLines "jd 3".toList) ts := by
  refine ⟨by decide +kernel, ?_⟩
  rintro ts ⟨lead, items, hcs, hlead, hitems, -⟩
  have hsplit : joinLines "jd 3".toList =
      [Opcode.jump.marker, 'd'] ++ ([] ++ ([' '] ++ ['3'])) := by decide
  have hfree : GapFree ([Opcode.jump.marker, 'd'] ++ ([] ++ ([' '] ++ ['3']))) :=
    gapFree_cons (by decide)
  rw [hsplit] at hcs
  obtain ⟨-, hwords⟩ := gap_append_inj (g := []) (by simp) hlead hfree
    (boundary_gapped items).gapFree hcs
  have hblank : ∀ c ∈ [' '], Text.isWhitespace c = true :=
    List.forall_mem_singleton.2 Text.isWhitespace_space
  exact (Stem.jump 'd').ne_gapped (by simp) (by simp) hblank rfl hitems hwords

end TapeMachine.Source
