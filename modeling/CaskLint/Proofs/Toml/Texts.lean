import CaskLint.Toml.Writer

/-!
# Reading written texts

  Whatever quotation a text is written in, the reader takes it apart again (**`text?_writeText`**).
  There is one read-back lemma for each of the four quotations, by induction on the text.

  The heart is the end of a text of several lines: up to two quotes of the text may stand right
  before the closing three, so the reader must count them (`closing?_replicate`), and three in a
  row must stand nowhere else. In double quotes the writer sees to that by a backslash before each
  third quote (`head_escapeAll`); in single quotes it does not use this quotation where the
  longest run of quotes has more than two (`le_longestRun`). The text that follows must not go on
  with a quote (**`EndsText`**).
-/

namespace CaskLint.Toml

/-- What follows a text does not begin with a quote. -/
def EndsText (rest : List Char) : Prop := ∀ c ∈ rest.head?, c ≠ '"' ∧ c ≠ '\''

/-! ## Escapes -/

theorem isTextChar_of_not_needsEscape {c : Char} (h : needsEscape c = false) (hc : c ≠ '\n') :
    isTextChar c = true := by
  simpa [needsEscape, hc] using h

/-- What needs an escape has a code point that two digits spell. -/
theorem toNat_le_of_needsEscape {c : Char} (h : needsEscape c = true) : c.toNat ≤ 127 := by
  simp only [needsEscape, isTextChar] at h
  simp at h
  omega

theorem codePoint?_upperHex {c : Char} (h : c.toNat ≤ 127) :
    codePoint? ['0', '0', Text.upperHex (c.toNat / 16), Text.upperHex (c.toNat % 16)] =
      some c := by
  have hhigh := Text.hexValue?_upperHex (c.toNat / 16) (by omega)
  have hlow := Text.hexValue?_upperHex (c.toNat % 16) (by omega)
  have hzero : Text.hexValue? '0' = some 0 := rfl
  have hvalue : c.toNat / 16 * 16 + c.toNat % 16 = c.toNat := by omega
  have hvalid : c.toNat.isValidChar := c.valid
  simp [codePoint?, List.foldlM, hzero, hhigh, hlow, hvalue, hvalid]

/-- The three ways to write a character that is not the quote: as it is, by a letter, or by its
    code point. -/
theorem escape_cases (lines : Bool) {c : Char} (hc : c ≠ '"') :
    (escape lines c = [c] ∧ c ≠ '\\' ∧ (isTextChar c = true ∨ lines = true ∧ c = '\n')) ∨
    (∃ letter, escape lines c = ['\\', letter] ∧ escaped? letter = some c) ∨
    ∃ a b, escape lines c = ['\\', 'u', '0', '0', a, b] ∧
      codePoint? ['0', '0', a, b] = some c := by
  by_cases hslash : c = '\\'
  · subst hslash
    exact Or.inr (Or.inl ⟨'\\', rfl, rfl⟩)
  by_cases htab : c = '\t'
  · subst htab
    exact Or.inr (Or.inl ⟨'t', rfl, rfl⟩)
  by_cases hnewline : c = '\n'
  · subst hnewline
    cases lines with
    | true => exact Or.inl ⟨rfl, by decide, Or.inr ⟨rfl, rfl⟩⟩
    | false => exact Or.inr (Or.inl ⟨'n', rfl, rfl⟩)
  by_cases hreturn : c = '\r'
  · subst hreturn
    exact Or.inr (Or.inl ⟨'r', rfl, rfl⟩)
  by_cases hback : c.toNat = 8
  · obtain rfl : c = '\x08' := Char.toNat_inj.mp hback
    exact Or.inr (Or.inl ⟨'b', rfl, rfl⟩)
  by_cases hfeed : c.toNat = 12
  · obtain rfl : c = '\x0c' := Char.toNat_inj.mp hfeed
    exact Or.inr (Or.inl ⟨'f', rfl, rfl⟩)
  rw [escape, if_neg hslash, if_neg htab, if_neg hnewline, if_neg hreturn, if_neg hback,
    if_neg hfeed]
  cases h : needsEscape c with
  | true => exact Or.inr (Or.inr ⟨_, _, rfl, codePoint?_upperHex (toNat_le_of_needsEscape h)⟩)
  | false =>
      exact Or.inl ⟨rfl, hslash, Or.inl (isTextChar_of_not_needsEscape h hnewline)⟩

/-- What is not the quote is never written with a quote at its head. -/
theorem escape_eq_cons (lines : Bool) {c : Char} (hc : c ≠ '"') :
    ∃ d ds, escape lines c = d :: ds ∧ d ≠ '"' := by
  rcases escape_cases lines hc with ⟨h, -⟩ | ⟨letter, h, -⟩ | ⟨a, b, h, -⟩
  · exact ⟨c, [], h, hc⟩
  · exact ⟨'\\', [letter], h, by decide⟩
  · exact ⟨'\\', _, h, by decide⟩

/-- A letter that means something after a backslash is none of those that announce digits, and
    not white space. -/
theorem ne_of_escaped? {letter c : Char} (h : escaped? letter = some c) :
    letter ≠ 'u' ∧ letter ≠ 'U' ∧ isBlank letter = false ∧ letter ≠ '\n' ∧ letter ≠ '\r' := by
  refine ⟨?_, ?_, ?_, ?_, ?_⟩
  · rintro rfl
    exact nomatch h
  · rintro rfl
    exact nomatch h
  · cases hblank : isBlank letter with
    | false => rfl
    | true =>
        simp only [isBlank, Bool.or_eq_true, beq_iff_eq] at hblank
        rcases hblank with rfl | rfl <;> exact nomatch h
  · rintro rfl
    exact nomatch h
  · rintro rfl
    exact nomatch h

/-! ## One line -/

theorem basicText_cons {c : Char} (hslash : c ≠ '\\') (cs : List Char) :
    basicText (c :: cs) =
      if c = '"' then some ([], cs)
      else if isTextChar c then putBefore c (basicText cs) else none := by
  rw [basicText.eq_def]
  dsimp only
  rw [if_neg hslash]

theorem basicText_quote (cs : List Char) : basicText ('"' :: cs) = some ([], cs) := by
  rw [basicText_cons (by decide), if_pos rfl]

theorem basicText_plain {c : Char} (hc : c ≠ '"') (hslash : c ≠ '\\')
    (htext : isTextChar c = true) (cs : List Char) :
    basicText (c :: cs) = putBefore c (basicText cs) := by
  rw [basicText_cons hslash, if_neg hc, if_pos htext]

theorem basicText_escaped {letter c : Char} (h : escaped? letter = some c) (cs : List Char) :
    basicText ('\\' :: letter :: cs) = putBefore c (basicText cs) := by
  obtain ⟨hu, hU, -⟩ := ne_of_escaped? h
  rw [basicText.eq_4 _ _ _ (fun _ _ _ _ _ h _ => hu h) (fun _ _ _ _ _ _ _ _ _ h _ => hU h), h]
  rfl

theorem basicText_code {d₁ d₂ d₃ d₄ c : Char} (h : codePoint? [d₁, d₂, d₃, d₄] = some c)
    (cs : List Char) :
    basicText ('\\' :: 'u' :: d₁ :: d₂ :: d₃ :: d₄ :: cs) = putBefore c (basicText cs) := by
  show (codePoint? [d₁, d₂, d₃, d₄]).bind _ = _
  rw [h]
  rfl

theorem basicText_escape {c : Char} (hc : c ≠ '"') (cs : List Char) :
    basicText (escape false c ++ cs) = putBefore c (basicText cs) := by
  rcases escape_cases false hc with ⟨h, hslash, htext⟩ | ⟨letter, h, hletter⟩ | ⟨a, b, h, hcode⟩
  · rw [h]
    rcases htext with htext | ⟨hlines, -⟩
    · exact basicText_plain hc hslash htext cs
    · cases hlines
  · rw [h]
    exact basicText_escaped hletter cs
  · rw [h]
    exact basicText_code hcode cs

theorem basicText_escapeAll (cs : List Char) (run : Nat) (rest : List Char) :
    basicText (escapeAll false run cs ++ '"' :: rest) = some (cs, rest) := by
  induction cs generalizing run with
  | nil => exact basicText_quote rest
  | cons c cs ih =>
      by_cases hc : c = '"'
      · subst hc
        exact (basicText_escaped rfl _).trans (congrArg (putBefore '"') (ih 0))
      · rw [escapeAll, if_neg hc, List.append_assoc, basicText_escape hc, ih]
        rfl

theorem literalText_append {cs : List Char} (h : ∀ c ∈ cs, isTextChar c = true ∧ c ≠ '\'')
    (rest : List Char) : literalText (cs ++ '\'' :: rest) = some (cs, rest) := by
  induction cs with
  | nil => rfl
  | cons c cs ih =>
      obtain ⟨⟨htext, hc⟩, hcs⟩ := List.forall_mem_cons.mp h
      rw [List.cons_append, literalText, if_neg hc, if_pos htext, ih hcs]
      rfl

/-! ## The end of several lines -/

/-- After the first quote of the end, and up to two quotes of the text before that, the text
    ends. -/
theorem closing?_replicate {quote : Char} {rest : List Char} (hrest : rest.head? ≠ some quote)
    {n : Nat} (hn : n ≤ 2) :
    closing? quote (List.replicate n quote ++ quote :: quote :: rest) =
      some (List.replicate n quote, rest) := by
  have hswap : List.replicate n quote ++ quote :: quote :: rest =
      quote :: quote :: (List.replicate n quote ++ rest) := by
    rw [List.append_cons, List.append_cons, ← List.replicate_succ', ← List.replicate_succ']
    rfl
  have htake : (List.replicate n quote ++ rest).takeWhile (· == quote) =
      List.replicate n quote := by
    rw [List.takeWhile_append_of_pos (by simp)]
    cases rest with
    | nil => exact List.append_nil _
    | cons c rest =>
        have hc : (c == quote) = false := by simpa using hrest
        rw [List.takeWhile_cons_of_neg (by simp [hc]), List.append_nil]
  have hlast : (List.replicate n quote).take 2 = List.replicate n quote :=
    List.take_of_length_le (by simpa using hn)
  rw [hswap, closing?, if_pos ⟨rfl, rfl⟩]
  simp [htake, hlast]

/-- A text that goes on with something else than two quotes does not end. -/
theorem closing?_eq_none {quote : Char} {cs : List Char}
    (h : ∀ ds, cs ≠ quote :: quote :: ds) : closing? quote cs = none := by
  match cs with
  | [] => rfl
  | [c] => rfl
  | a :: b :: ds =>
      rw [closing?, if_neg]
      rintro ⟨rfl, rfl⟩
      exact h ds rfl

/-! ## Several lines in double quotes -/

theorem basicLines_cons {c : Char} (hreturn : c ≠ '\r') (hslash : c ≠ '\\') (cs : List Char) :
    basicLines false (c :: cs) =
      if c = '"' then
        match closing? '"' cs with
        | some ended => some ended
        | none => putBefore c (basicLines false cs)
      else if c = '\n' ∨ isTextChar c then putBefore c (basicLines false cs) else none := by
  rw [basicLines.eq_def]
  dsimp only
  rw [if_neg hreturn, if_neg (by simp)]
  by_cases hc : c = '"'
  · exact (if_pos hc).trans (if_pos hc).symm
  · rw [if_neg hc, if_neg hc, if_neg hslash]

theorem basicLines_quote_ends {cs : List Char} {ended : List Char × List Char}
    (h : closing? '"' cs = some ended) : basicLines false ('"' :: cs) = some ended := by
  rw [basicLines_cons (by decide) (by decide), if_pos rfl, h]

theorem basicLines_quote {cs : List Char} (h : closing? '"' cs = none) :
    basicLines false ('"' :: cs) = putBefore '"' (basicLines false cs) := by
  rw [basicLines_cons (by decide) (by decide), if_pos rfl, h]

theorem basicLines_plain {c : Char} (hc : c ≠ '"') (hslash : c ≠ '\\')
    (htext : isTextChar c = true ∨ c = '\n') (cs : List Char) :
    basicLines false (c :: cs) = putBefore c (basicLines false cs) := by
  have hreturn : c ≠ '\r' := by
    rintro rfl
    exact absurd htext (by decide)
  rw [basicLines_cons hreturn hslash, if_neg hc, if_pos htext.symm]

theorem atLineEnd_cons {c : Char} (hblank : isBlank c = false) (hnewline : c ≠ '\n')
    (hreturn : c ≠ '\r') (cs : List Char) : atLineEnd (c :: cs) = false := by
  rw [atLineEnd, List.dropWhile_cons_of_neg (by simp [hblank])]
  split
  · rename_i h
    exact absurd (List.cons.inj h).1 hnewline
  · rename_i h
    exact absurd (List.cons.inj h).1 hreturn
  · rfl

theorem basicLines_escaped {letter c : Char} (h : escaped? letter = some c) (cs : List Char) :
    basicLines false ('\\' :: letter :: cs) = putBefore c (basicLines false cs) := by
  obtain ⟨hu, hU, hblank, hnewline, hreturn⟩ := ne_of_escaped? h
  rw [basicLines.eq_4 _ _ _ _ (fun _ _ _ _ _ h _ => hu h) (fun _ _ _ _ _ _ _ _ _ h _ => hU h),
    if_neg (by decide), if_neg (by decide), if_neg (by decide), if_pos rfl,
    atLineEnd_cons hblank hnewline hreturn, h]
  rfl

theorem basicLines_code {d₁ d₂ d₃ d₄ c : Char} (h : codePoint? [d₁, d₂, d₃, d₄] = some c)
    (cs : List Char) :
    basicLines false ('\\' :: 'u' :: d₁ :: d₂ :: d₃ :: d₄ :: cs) =
      putBefore c (basicLines false cs) := by
  rw [basicLines.eq_2, if_neg (by decide), if_neg (by decide), if_neg (by decide), if_pos rfl,
    atLineEnd_cons (by decide) (by decide) (by decide), h]
  rfl

theorem basicLines_escape {c : Char} (hc : c ≠ '"') (cs : List Char) :
    basicLines false (escape true c ++ cs) = putBefore c (basicLines false cs) := by
  rcases escape_cases true hc with ⟨h, hslash, htext⟩ | ⟨letter, h, hletter⟩ | ⟨a, b, h, hcode⟩
  · rw [h]
    exact basicLines_plain hc hslash (htext.imp_right And.right) cs
  · rw [h]
    exact basicLines_escaped hletter cs
  · rw [h]
    exact basicLines_code hcode cs

/-- Where a quote would get a backslash, and before what is not a quote, no text is written with a
    quote at its head. -/
theorem head_escapeAll {lines : Bool} {run : Nat} {c : Char}
    (h : c = '"' → (lines && decide (run < 2)) = false) (cs : List Char) :
    ∃ d ds, escapeAll lines run (c :: cs) = d :: ds ∧ d ≠ '"' := by
  by_cases hc : c = '"'
  · refine ⟨'\\', c :: escapeAll lines 0 cs, ?_, by decide⟩
    rw [escapeAll, if_pos hc, if_neg (Bool.eq_false_iff.mp (h hc))]
  · obtain ⟨d, ds, hd, hne⟩ := escape_eq_cons lines hc
    refine ⟨d, ds ++ escapeAll lines 0 cs, ?_, hne⟩
    rw [escapeAll, if_neg hc, hd]
    rfl

/-- After a quote as it is, a text that goes on with more than one more quote does not end. -/
theorem closing?_escapeAll {run : Nat} (hrun : run < 2) {c : Char} {cs : List Char}
    (h : run = 0 → c = '"' → cs ≠ []) (tail : List Char) :
    closing? '"' (escapeAll true (run + 1) (c :: cs) ++ tail) = none := by
  by_cases hsecond : c = '"' ∧ run = 0
  · obtain ⟨rfl, rfl⟩ := hsecond
    -- the quote is the second one, so the next character has a backslash if it is a third one
    obtain ⟨c', cs', rfl⟩ := List.exists_cons_of_ne_nil (h rfl rfl)
    obtain ⟨d, ds, hd, hne⟩ := @head_escapeAll true 2 c' (fun _ => rfl) cs'
    have hwritten : escapeAll true 1 ('"' :: c' :: cs') = '"' :: d :: ds := by
      rw [← hd]
      rfl
    rw [hwritten]
    refine closing?_eq_none fun es he => hne ?_
    exact (List.cons.inj (List.cons.inj he).2).1
  · have hhead : c = '"' → (true && decide (run + 1 < 2)) = false := by
      intro hc
      have hne : run ≠ 0 := fun hzero => hsecond ⟨hc, hzero⟩
      simp only [Bool.true_and, decide_eq_false_iff_not]
      omega
    obtain ⟨d, ds, hd, hne⟩ := head_escapeAll hhead cs
    rw [hd]
    refine closing?_eq_none fun es he => hne ?_
    exact (List.cons.inj he).1

theorem basicLines_escapeAll {rest : List Char} (hrest : rest.head? ≠ some '"')
    (cs : List Char) (run : Nat) :
    basicLines false (escapeAll true run cs ++ '"' :: '"' :: '"' :: rest) = some (cs, rest) := by
  induction cs generalizing run with
  | nil => exact basicLines_quote_ends (closing?_replicate hrest (Nat.zero_le 2))
  | cons c cs ih =>
      by_cases hc : c = '"'
      · subst hc
        by_cases hrun : run < 2
        · have hwritten : escapeAll true run ('"' :: cs) = '"' :: escapeAll true (run + 1) cs := by
            simp [escapeAll, hrun]
          rw [hwritten, List.cons_append]
          -- a quote as it is: either the text ends with it or one more, or it is not at the end
          by_cases hends : cs = [] ∨ run = 0 ∧ cs = ['"']
          · rcases hends with rfl | ⟨rfl, rfl⟩
            · exact basicLines_quote_ends (closing?_replicate hrest (by decide : 1 ≤ 2))
            · exact basicLines_quote_ends (closing?_replicate hrest (by decide : 2 ≤ 2))
          · obtain ⟨hne, hlast⟩ := not_or.mp hends
            obtain ⟨c, cs, rfl⟩ := List.exists_cons_of_ne_nil hne
            rw [basicLines_quote (closing?_escapeAll hrun ?_ _), ih]
            · rfl
            · rintro hzero rfl rfl
              exact hlast ⟨hzero, rfl⟩
        · have hwritten : escapeAll true run ('"' :: cs) = '\\' :: '"' :: escapeAll true 0 cs := by
            simp [escapeAll, hrun]
          rw [hwritten]
          exact (basicLines_escaped rfl _).trans (congrArg (putBefore '"') (ih 0))
      · rw [escapeAll, if_neg hc, List.append_assoc, basicLines_escape hc, ih]
        rfl

/-! ## Several lines in single quotes -/

theorem le_longestRun (quote : Char) (cs : List Char) (run longest : Nat) :
    longest ≤ longestRun quote run longest cs := by
  induction cs generalizing run longest with
  | nil => exact Nat.le_refl longest
  | cons c cs ih =>
      rw [longestRun]
      split
      · exact Nat.le_trans (Nat.le_max_left ..) (ih _ _)
      · exact ih _ _

theorem literalLines_quote_ends {cs : List Char} {ended : List Char × List Char}
    (h : closing? '\'' cs = some ended) : literalLines ('\'' :: cs) = some ended := by
  rw [literalLines, if_neg (by decide), if_pos rfl, h]

theorem literalLines_quote {cs : List Char} (h : closing? '\'' cs = none) :
    literalLines ('\'' :: cs) = putBefore '\'' (literalLines cs) := by
  rw [literalLines, if_neg (by decide), if_pos rfl, h]

theorem literalLines_plain {c : Char} (hc : c ≠ '\'') (h : needsEscape c = false)
    (cs : List Char) : literalLines (c :: cs) = putBefore c (literalLines cs) := by
  have hreturn : c ≠ '\r' := by
    rintro rfl
    exact absurd h (by decide)
  have htext : c = '\n' ∨ isTextChar c = true := by
    simpa only [needsEscape, Bool.not_eq_false', Bool.or_eq_true, beq_iff_eq] using h
  rw [literalLines, if_neg hreturn, if_neg hc, if_pos htext]

theorem literalLines_append {rest : List Char} (hrest : rest.head? ≠ some '\'')
    {cs : List Char} (hplain : ∀ c ∈ cs, needsEscape c = false) {run longest : Nat}
    (hrun : longestRun '\'' run longest cs ≤ 2) :
    literalLines (cs ++ '\'' :: '\'' :: '\'' :: rest) = some (cs, rest) := by
  induction cs generalizing run longest with
  | nil => exact literalLines_quote_ends (closing?_replicate hrest (Nat.zero_le 2))
  | cons c cs ih =>
      obtain ⟨hc, hcs⟩ := List.forall_mem_cons.mp hplain
      by_cases hquote : c = '\''
      · subst hquote
        rw [longestRun, if_pos rfl] at hrun
        by_cases hends : cs = [] ∨ cs = ['\'']
        · rcases hends with rfl | rfl
          · exact literalLines_quote_ends (closing?_replicate hrest (by decide : 1 ≤ 2))
          · exact literalLines_quote_ends (closing?_replicate hrest (by decide : 2 ≤ 2))
        · obtain ⟨hne, hlast⟩ := not_or.mp hends
          have hclosing : closing? '\'' (cs ++ '\'' :: '\'' :: '\'' :: rest) = none := by
            refine closing?_eq_none fun ds hds => ?_
            match cs with
            | [] => exact hne rfl
            | [a] =>
                obtain rfl : a = '\'' := (List.cons.inj hds).1
                exact hlast rfl
            | a :: b :: cs =>
                -- three quotes in a row would be a longer run
                obtain ⟨rfl, hrest'⟩ := List.cons.inj hds
                obtain rfl : b = '\'' := (List.cons.inj hrest').1
                rw [longestRun, if_pos rfl, longestRun, if_pos rfl] at hrun
                have h := Nat.le_trans (le_longestRun ..) hrun
                omega
          rw [List.cons_append, literalLines_quote hclosing, ih hcs hrun]
          rfl
      · rw [longestRun, if_neg hquote] at hrun
        rw [List.cons_append, literalLines_plain hquote hc, ih hcs hrun]
        rfl

/-! ## Any text -/

/-- A text as `text?` gives it. -/
def asString (text : Option (List Char × List Char)) : Option (String × List Char) :=
  text.map fun (cs, rest) => (String.ofList cs, rest)

theorem text?_basic {cs : List Char} (h : ∀ ds, cs ≠ '"' :: '"' :: ds) :
    text? ('"' :: cs) = asString (basicText cs) := by
  rw [text?]
  · cases basicText cs <;> rfl
  · exact h

theorem text?_literal {cs : List Char} (h : ∀ ds, cs ≠ '\'' :: '\'' :: ds) :
    text? ('\'' :: cs) = asString (literalText cs) := by
  rw [text?]
  · cases literalText cs <;> rfl
  · exact h

theorem text?_basicLines (cs : List Char) :
    text? ('"' :: '"' :: '"' :: cs) = asString (basicLines false (dropNewline cs)) := by
  rw [text?]
  cases basicLines false (dropNewline cs) <;> rfl

theorem text?_literalLines (cs : List Char) :
    text? ('\'' :: '\'' :: '\'' :: cs) = asString (literalLines (dropNewline cs)) := by
  rw [text?]
  cases literalLines (dropNewline cs) <;> rfl

theorem dropNewline_of_ne {c : Char} (hnewline : c ≠ '\n') (hreturn : c ≠ '\r')
    (cs : List Char) : dropNewline (c :: cs) = c :: cs := by
  rw [dropNewline]
  · intro ds h
    exact hnewline (List.cons.inj h).1
  · intro ds h
    exact hreturn (List.cons.inj h).1

/-- The newline after the opening quotes is dropped, and where there is none, nothing is. -/
theorem dropNewline_opening {newline : Bool} {c : Char}
    (h : newline = false → c ≠ '\n' ∧ c ≠ '\r') (cs : List Char) :
    dropNewline ((if newline then ['\n'] else []) ++ c :: cs) = c :: cs := by
  cases newline with
  | true => rfl
  | false => exact dropNewline_of_ne (h rfl).1 (h rfl).2 cs

theorem ne_of_not_needsEscape {c : Char} (h : needsEscape c = false) : c ≠ '\r' := by
  rintro rfl
  exact absurd h (by decide)

/-- A text without newlines is written in double quotes with neither part of a line end at its
    head. -/
theorem exists_escapeAll_eq_cons (cs tail : List Char) :
    ∃ d ds, escapeAll true 0 cs ++ '"' :: tail = d :: ds ∧
      (cs.contains '\n' = false → d ≠ '\n' ∧ d ≠ '\r') := by
  match cs with
  | [] => exact ⟨'"', tail, rfl, fun _ => by decide⟩
  | c :: cs =>
      by_cases hc : c = '"'
      · subst hc
        exact ⟨'"', _, rfl, fun _ => by decide⟩
      · rw [escapeAll, if_neg hc]
        rcases escape_cases true hc with ⟨h, -, htext⟩ | ⟨letter, h, -⟩ | ⟨a, b, h, -⟩
        · refine ⟨c, _, by rw [h]; rfl, fun hnewline => ?_⟩
          have hne : c ≠ '\n' := by
            rintro rfl
            simp at hnewline
          refine ⟨hne, ?_⟩
          rintro rfl
          exact absurd htext (by decide)
        · refine ⟨'\\', _, by rw [h]; rfl, fun _ => by decide⟩
        · refine ⟨'\\', _, by rw [h]; rfl, fun _ => by decide⟩

/-- Single quotes on one line are used for text characters only, and no quote among them. -/
theorem of_quotingOf_literal {cs : List Char} (h : quotingOf cs = .literal) :
    ∀ c ∈ cs, isTextChar c = true ∧ c ≠ '\'' := by
  have hcond : cs.any needsEscape = false ∧ cs.contains '\n' = false ∧
      cs.contains '\'' = false := by
    rw [quotingOf] at h
    split at h
    · exact nomatch h
    split at h
    · rename_i hcond
      simpa only [Bool.and_eq_true, Bool.not_eq_true', and_assoc] using hcond
    split at h
    · exact nomatch h
    split at h
    · exact nomatch h
    split at h <;> exact nomatch h
  obtain ⟨hplain, hnewline, hquote⟩ := hcond
  intro c hc
  refine ⟨isTextChar_of_not_needsEscape ?_ ?_, ?_⟩
  · exact Bool.eq_false_iff.mpr (List.any_eq_false.mp hplain c hc)
  · rintro rfl
    simp [hc] at hnewline
  · rintro rfl
    simp [hc] at hquote

/-- Single quotes on several lines are used for text characters and newlines, and no three quotes
    in a row among them. -/
theorem of_quotingOf_literalLines {cs : List Char} (h : quotingOf cs = .literalLines) :
    (∀ c ∈ cs, needsEscape c = false) ∧ longestRun '\'' 0 0 cs ≤ 2 := by
  have hcond : cs.any needsEscape = false ∧ longestRun '\'' 0 0 cs ≤ 2 := by
    rw [quotingOf] at h
    split at h
    · exact nomatch h
    split at h
    · exact nomatch h
    split at h
    · exact nomatch h
    split at h
    · rename_i hcond
      simpa only [Bool.and_eq_true, Bool.not_eq_true', decide_eq_true_eq] using hcond
    split at h <;> exact nomatch h
  exact ⟨fun c hc => Bool.eq_false_iff.mpr (List.any_eq_false.mp hcond.1 c hc), hcond.2⟩

/-! ## Any written text -/

section

variable {cs rest : List Char}

theorem text?_write_basic (hrest : rest.head? ≠ some '"') :
    text? (Quoting.basic.write cs ++ rest) = asString (some (cs, rest)) := by
  have hshape : ∀ ds, escapeAll false 0 cs ++ '"' :: rest ≠ '"' :: '"' :: ds := by
    intro ds hds
    match cs with
    | [] =>
        rw [(List.cons.inj hds).2] at hrest
        exact hrest rfl
    | c :: cs =>
        obtain ⟨d, es, hd, hne⟩ := @head_escapeAll false 0 c (fun _ => rfl) cs
        rw [hd] at hds
        exact hne (List.cons.inj hds).1
  have hwritten : Quoting.basic.write cs ++ rest =
      '"' :: (escapeAll false 0 cs ++ '"' :: rest) := by
    simp [Quoting.write]
  rw [hwritten, text?_basic hshape, basicText_escapeAll]

theorem text?_write_literal (hcs : ∀ c ∈ cs, isTextChar c = true ∧ c ≠ '\'')
    (hrest : rest.head? ≠ some '\'') :
    text? (Quoting.literal.write cs ++ rest) = asString (some (cs, rest)) := by
  have hshape : ∀ ds, cs ++ '\'' :: rest ≠ '\'' :: '\'' :: ds := by
    intro ds hds
    match cs with
    | [] =>
        rw [(List.cons.inj hds).2] at hrest
        exact hrest rfl
    | c :: cs => exact (hcs c List.mem_cons_self).2 (List.cons.inj hds).1
  have hwritten : Quoting.literal.write cs ++ rest = '\'' :: (cs ++ '\'' :: rest) := by
    simp [Quoting.write]
  rw [hwritten, text?_literal hshape, literalText_append hcs]

theorem text?_write_basicLines (hrest : rest.head? ≠ some '"') :
    text? (Quoting.basicLines.write cs ++ rest) = asString (some (cs, rest)) := by
  obtain ⟨d, ds, hd, hne⟩ := exists_escapeAll_eq_cons cs ('"' :: '"' :: rest)
  have hwritten : Quoting.basicLines.write cs ++ rest = '"' :: '"' :: '"' ::
      ((if cs.contains '\n' then ['\n'] else []) ++ d :: ds) := by
    rw [← hd]
    simp [Quoting.write]
  rw [hwritten, text?_basicLines, dropNewline_opening hne, ← hd, basicLines_escapeAll hrest]

theorem text?_write_literalLines (hplain : ∀ c ∈ cs, needsEscape c = false)
    (hrun : longestRun '\'' 0 0 cs ≤ 2) (hrest : rest.head? ≠ some '\'') :
    text? (Quoting.literalLines.write cs ++ rest) = asString (some (cs, rest)) := by
  obtain ⟨d, ds, hd, hne⟩ : ∃ d ds, cs ++ '\'' :: '\'' :: '\'' :: rest = d :: ds ∧
      (cs.contains '\n' = false → d ≠ '\n' ∧ d ≠ '\r') := by
    match cs with
    | [] => exact ⟨'\'', _, rfl, fun _ => by decide⟩
    | c :: cs =>
        refine ⟨c, _, rfl, fun hnewline => ⟨?_, ?_⟩⟩
        · rintro rfl
          simp at hnewline
        · exact ne_of_not_needsEscape (hplain c List.mem_cons_self)
  have hwritten : Quoting.literalLines.write cs ++ rest = '\'' :: '\'' :: '\'' ::
      ((if cs.contains '\n' then ['\n'] else []) ++ d :: ds) := by
    rw [← hd]
    simp [Quoting.write]
  rw [hwritten, text?_literalLines, dropNewline_opening hne, ← hd,
    literalLines_append hrest hplain hrun]

end

/-- **Whatever quotation a text is written in, it reads back.** -/
theorem text?_writeText (s : String) {rest : List Char} (hrest : EndsText rest) :
    text? (writeText s ++ rest) = some (s, rest) := by
  have hdouble : rest.head? ≠ some '"' := fun h => (hrest '"' h).1 rfl
  have hsingle : rest.head? ≠ some '\'' := fun h => (hrest '\'' h).2 rfl
  have hstring : asString (some (s.toList, rest)) = some (s, rest) := by
    simp [asString, String.ofList_toList]
  rw [writeText, ← hstring]
  cases h : quotingOf s.toList with
  | basic => exact text?_write_basic hdouble
  | literal => exact text?_write_literal (of_quotingOf_literal h) hsingle
  | basicLines => exact text?_write_basicLines hdouble
  | literalLines =>
      obtain ⟨hplain, hrun⟩ := of_quotingOf_literalLines h
      exact text?_write_literalLines hplain hrun hsingle

end CaskLint.Toml
