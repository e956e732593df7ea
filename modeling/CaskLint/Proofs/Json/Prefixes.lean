import CaskLint.Proofs.Json.Spelled

/-!
# Texts that end too early

  What is left of a text that is cut off somewhere, in tokens and in sketches. The cut may fall
  between two tokens or inside one (**`Token.Cut`**): of a word or string something without its end
  is left, of a number a shorter number or a broken one. What follows the cut is gone, and so the
  cut token is the last one (**`CutTokens`**, `cutTokens_scan`).

  A sketch that is cut (**`Sketch.Cut`**) keeps what came before, and every array and object that
  was open has a fault where it goes on no more. The builder makes such a sketch of tokens that
  are cut (**`cut_foldl_step`**, by the recursion of the sketch that it would have made).
-/

namespace CaskLint.Json

/-! ## Cutting numbers -/

/-- What is left of a number is as signed as the number; of a plain integer it is a plain integer
    that has the first of its digits. -/
def Numeral.Cut (n' n : Numeral) : Prop :=
  n'.negative = n.negative ∧ (n.fraction = [] → n.exponent = none →
    n'.fraction = [] ∧ n'.exponent = none ∧ n'.whole <+: n.whole)

/-- What is left of a token that is cut inside it. -/
inductive Token.Cut : Token → Token → Prop
  | null (f : Fault) : Cut (.broken f) .null
  | flag (f : Fault) (b : Bool) : Cut (.broken f) (.flag b)
  | brokenNumber (f : Fault) (n : Numeral) : Cut (.brokenNumber f) (.number n)
  | number {n' n : Numeral} (h : n'.Cut n) : Cut (.number n') (.number n)
  | text {q' : Quotation} (q : Quotation) (h : q'.fault.isSome) : Cut (.text q') (.text q)

theorem le_ofDigitChars (digits : List Char) (init : Nat) :
    init ≤ Nat.ofDigitChars 10 digits init := by
  induction digits generalizing init with
  | nil => exact Nat.le_refl _
  | cons d digits ih =>
      rw [Nat.ofDigitChars_cons]
      refine Nat.le_trans ?_ (ih _)
      omega

/-- Of an integer that is not negative no larger one is left. -/
theorem Numeral.Cut.integer? {n' n : Numeral} (h : n'.Cut n) {i : Int} (hn : n.integer? = some i)
    (hi : 0 ≤ i) : ∃ i', n'.integer? = some i' ∧ 0 ≤ i' ∧ i' ≤ i := by
  obtain ⟨hnegative, hplain⟩ := h
  rw [Numeral.integer?] at hn
  split at hn
  · rename_i hform
    obtain ⟨hfraction, hexponent⟩ := Bool.and_eq_true_iff.mp hform
    obtain ⟨hfraction', hexponent', more, hmore⟩ :=
      hplain (List.isEmpty_iff.mp hfraction) (Option.isNone_iff_eq_none.mp hexponent)
    have hle : Nat.ofDigitChars 10 n'.whole 0 ≤ Nat.ofDigitChars 10 n.whole 0 := by
      rw [← hmore, Nat.ofDigitChars_append]
      exact le_ofDigitChars _ _
    dsimp only at hn
    split at hn
    · -- only a negative number has a minus sign
      split at hn
      · obtain rfl := Option.some.inj hn
        omega
      · exact nomatch hn
    · rename_i hpositive
      split at hn
      · obtain rfl := Option.some.inj hn
        refine ⟨(Nat.ofDigitChars 10 n'.whole 0 : Nat), ?_, by omega, by omega⟩
        rw [Numeral.integer?, hfraction', hexponent', hnegative, eq_false_of_ne_true hpositive]
        show (if Nat.ofDigitChars 10 n'.whole 0 < 18446744073709551616 then some _ else none) = _
        rw [if_pos (by omega)]
      · exact nomatch hn
  · exact nomatch hn

theorem Numeral.Cut.of_exponent {m n : Numeral} (hnegative : m.negative = n.negative)
    (hn : n.exponent ≠ none) : m.Cut n :=
  ⟨hnegative, fun _ hnone => absurd hnone hn⟩

theorem Numeral.Cut.of_fraction {m n : Numeral} (hnegative : m.negative = n.negative)
    (hn : n.fraction ≠ []) : m.Cut n :=
  ⟨hnegative, fun hnil _ => absurd hnil hn⟩

namespace Token

/-- The exponent of a number, of which only the beginning is there. -/
theorem exponent_cut (m : Numeral) {negative : Bool} {sign digits cut rest : List Char}
    (hsign : SpellsSign negative sign) (hdigits : ∀ c ∈ digits, c.isDigit = true)
    (htext : sign ++ digits = cut ++ rest) :
    (∃ f, exponent m cut = (.brokenNumber f, [])) ∨
      ∃ e, exponent m cut = (.number { m with exponent := some e }, []) := by
  -- a sign may be left, and some of the digits
  have hleft : ∃ negative' sign' ds, SpellsSign negative' sign' ∧
      (∀ c ∈ ds, c.isDigit = true) ∧ cut = sign' ++ ds := by
    have hsome : ∀ {ds more : List Char}, digits = ds ++ more → ∀ c ∈ ds, c.isDigit = true :=
      fun h c hc => hdigits c (h ▸ List.mem_append_left _ hc)
    cases hsign with
    | minus =>
        cases cut with
        | nil => exact ⟨false, [], [], .absent, List.forall_mem_nil _, rfl⟩
        | cons c ds =>
            obtain ⟨rfl, htail⟩ := List.cons.inj htext
            exact ⟨true, _, ds, .minus, hsome htail, rfl⟩
    | plus =>
        cases cut with
        | nil => exact ⟨false, [], [], .absent, List.forall_mem_nil _, rfl⟩
        | cons c ds =>
            obtain ⟨rfl, htail⟩ := List.cons.inj htext
            exact ⟨false, _, ds, .plus, hsome htail, rfl⟩
    | absent => exact ⟨false, [], cut, .absent, hsome htext, rfl⟩
  obtain ⟨negative', sign', ds, hsign', hds, rfl⟩ := hleft
  cases ds with
  | nil =>
      left
      cases hsign' <;> exact ⟨.truncated, rfl⟩
  | cons d ds =>
      right
      have hscan := exponent_spelled m (e := ⟨negative', d :: ds⟩) hsign' (List.cons_ne_nil d ds)
        hds endsNumber_nil
      rw [List.append_nil] at hscan
      exact ⟨_, hscan⟩

/-- A number without an exponent, of whose exponent only the beginning is there. -/
theorem exponent?_cut {m n : Numeral} (hm : m.Cut n)
    {es cut rest : List Char} (hes : SpellsExponent n.exponent es)
    (hdigits : ∀ e, n.exponent = some e → e.digits ≠ [] ∧ ∀ c ∈ e.digits, c.isDigit = true)
    (htext : es = cut ++ rest) : ∃ t, exponent? m cut = (t, []) ∧ t.Cut (.number n) := by
  cases cut with
  | nil => exact ⟨.number m, rfl, .number hm⟩
  | cons c cut =>
      generalize hexp : n.exponent = exp at hes
      cases hes with
      | absent => exact nomatch htext
      | @present e mark sign hmark hsign =>
          obtain ⟨rfl, htail⟩ := List.cons.inj htext
          have hbegun : exponent? m (mark :: cut) = exponent m cut := if_pos hmark
          rw [hbegun]
          have hne : n.exponent ≠ none := by simp [hexp]
          rcases exponent_cut m hsign (hdigits e hexp).2 htail with ⟨f, hscan⟩ | ⟨e', hscan⟩
          · exact ⟨_, hscan, .brokenNumber f n⟩
          · exact ⟨_, hscan, .number (.of_exponent hm.1 hne)⟩

/-- The digits of a part of a number, of which only the first are there. -/
theorem takeWhile_isDigit {ds : List Char} (hds : ∀ c ∈ ds, c.isDigit = true) :
    ds.takeWhile Char.isDigit = ds ∧ ds.dropWhile Char.isDigit = [] := by
  have htake := @takeWhile_isDigit_append ds [] hds nofun
  have hdrop := @dropWhile_isDigit_append ds [] hds nofun
  rw [List.append_nil] at htake hdrop
  exact ⟨htake, hdrop⟩

/-- A number after its whole part, of which only the beginning is there. -/
theorem fraction?_cut {n : Numeral} (hn : n.Proper) {es cut rest : List Char}
    (hes : SpellsExponent n.exponent es) (htext : spellFraction n.fraction ++ es = cut ++ rest) :
    ∃ t, fraction? ⟨n.negative, n.whole, [], none⟩ cut = (t, []) ∧ t.Cut (.number n) := by
  have hwhole : Numeral.Cut ⟨n.negative, n.whole, [], none⟩ n :=
    ⟨rfl, fun _ _ => ⟨rfl, rfl, List.prefix_rfl⟩⟩
  cases cut with
  | nil => exact ⟨_, rfl, .number hwhole⟩
  | cons c cut =>
      cases hfraction : n.fraction with
      | nil =>
          rw [hfraction] at htext
          have hpoint : c ≠ '.' :=
            (head_spellsExponent hes endsNumber_nil c (by
              rw [List.append_nil, show es = c :: cut ++ rest from htext]
              rfl)).2
          rw [fraction?, if_neg hpoint]
          exact exponent?_cut hwhole hes hn.exponent_digits htext
      | cons d ds =>
          have hcut : ∀ ds', Numeral.Cut ⟨n.negative, n.whole, ds', none⟩ n := fun ds' =>
            .of_fraction rfl (by simp [hfraction])
          have hdigits : ∀ c ∈ d :: ds, c.isDigit = true := hfraction ▸ hn.fraction_digits
          rw [hfraction] at htext
          obtain ⟨rfl, htail⟩ := List.cons.inj htext
          rw [fraction?, if_pos rfl]
          -- the cut is in the exponent or among the digits
          rcases List.append_eq_append_iff.mp htail with
            ⟨cut', rfl, hes'⟩ | ⟨more, hds, -⟩
          · have hhead : ∀ c ∈ cut'.head?, c.isDigit = false := by
              intro c hc
              refine (head_spellsExponent hes endsNumber_nil c ?_).1
              rw [List.append_nil, hes']
              exact List.mem_head?_append_of_mem_head? hc
            rw [takeWhile_isDigit_append hdigits hhead, dropWhile_isDigit_append hdigits hhead]
            exact exponent?_cut (hcut _) hes hn.exponent_digits hes'
          · have hcutdigits : ∀ c ∈ cut, c.isDigit = true := fun c hc =>
              hdigits c (hds ▸ List.mem_append_left _ hc)
            obtain ⟨htake, hdrop⟩ := takeWhile_isDigit hcutdigits
            rw [htake, hdrop]
            cases cut with
            | nil => exact ⟨_, rfl, .brokenNumber _ n⟩
            | cons d' ds' => exact ⟨_, rfl, .number (hcut _)⟩

/-- A number after its sign, of which only the beginning is there. -/
theorem afterSign_cut {n : Numeral} {cut rest : List Char} (h : n.SpellsUnsigned (cut ++ rest)) :
    ∃ t, afterSign n.negative cut = (t, []) ∧ t.Cut (.number n) := by
  obtain ⟨hn, es, hes, htext⟩ := h
  have hempty : n.whole.isEmpty = false := List.isEmpty_eq_false_iff.mpr hn.whole_ne_nil
  rw [afterSign]
  rcases List.append_eq_append_iff.mp htext.symm with ⟨cut', rfl, htail⟩ | ⟨more, hwhole, -⟩
  · -- the whole part is there
    have hhead : ∀ c ∈ cut'.head?, c.isDigit = false := by
      intro c hc
      refine head_afterWhole n.fraction hes endsNumber_nil c ?_
      rw [List.append_nil, htail]
      exact List.mem_head?_append_of_mem_head? hc
    rw [takeWhile_isDigit_append hn.whole_digits hhead,
      dropWhile_isDigit_append hn.whole_digits hhead]
    simp only [hempty, not_leading hn]
    exact fraction?_cut hn hes htail
  · -- some of its digits are
    have hdigits : ∀ c ∈ cut, c.isDigit = true := fun c hc =>
      hn.whole_digits c (hwhole ▸ List.mem_append_left _ hc)
    obtain ⟨htake, hdrop⟩ := takeWhile_isDigit hdigits
    rw [htake, hdrop]
    cases cut with
    | nil => exact ⟨_, rfl, .brokenNumber _ n⟩
    | cons d ds =>
        have hlead : ¬ ((d :: ds).head? = some '0' ∧ 1 < (d :: ds).length) := by
          rintro ⟨hzero, hlong⟩
          have hone := hn.leading (by rw [hwhole]; exact hzero)
          rw [hwhole, List.length_append] at hone
          omega
        have hcut : Numeral.Cut ⟨n.negative, d :: ds, [], none⟩ n :=
          ⟨rfl, fun _ _ => ⟨rfl, rfl, more, hwhole.symm⟩⟩
        simp only [hlead]
        exact ⟨_, rfl, .number hcut⟩

/-- **A number is cut to a number or breaks.** -/
theorem next?_number_cut {n : Numeral} {cut rest : List Char} (h : n.Spells (cut ++ rest))
    (hcut : cut ≠ []) : ∃ t, next? cut = some (t, []) ∧ t.Cut (.number n) := by
  obtain ⟨ds, hds, htext⟩ := h
  cases hnegative : n.negative with
  | true =>
      rw [hnegative] at htext
      cases cut with
      | nil => exact absurd rfl hcut
      | cons c cut =>
          obtain ⟨rfl, rfl⟩ := List.cons.inj htext
          obtain ⟨t, hscan, ht⟩ := afterSign_cut hds
          rw [hnegative] at hscan
          exact ⟨t, next?_of_start rfl hscan, ht⟩
  | false =>
      rw [hnegative] at htext
      obtain rfl : cut ++ rest = ds := htext
      obtain ⟨t, hscan, ht⟩ := afterSign_cut hds
      rw [hnegative] at hscan
      cases cut with
      | nil => exact absurd rfl hcut
      | cons c cut =>
          have hc : c.isDigit = true := by
            obtain ⟨hn, es, -, hwhole⟩ := hds
            cases hw : n.whole with
            | nil => exact absurd hw hn.whole_ne_nil
            | cons d ds =>
                rw [hw] at hwhole
                obtain ⟨rfl, -⟩ := List.cons.inj hwhole
                exact hn.whole_digits c (by simp [hw])
          have hstart := (start_digit hc _).trans hscan
          exact ⟨t, next?_of_start (isBlank_eq_false_of_isDigit hc) hstart, ht⟩

end Token

/-! ## Cutting strings and words -/

namespace Quotation

/-- A string that ends inside a piece goes wrong there. -/
theorem scan_piece_cut {p : Piece} {cut rest : List Char} (h : SpellsPiece p (cut ++ rest))
    (hrest : rest ≠ []) : ∃ f, scan cut = fail f := by
  have hfails : ∀ cs : List Char, SpellsPiece p cs → ∀ k < cs.length,
      ∃ f, scan (cs.take k) = fail f := by
    intro cs hcs k hk
    cases hcs with
    | raw hquote hslash hcontrol =>
        obtain rfl : k = 0 := Nat.lt_one_iff.mp hk
        exact ⟨.truncated, by rw [scan.eq_def]; rfl⟩
    | letter hu h =>
        rcases k with _ | _ | k
        · exact ⟨.truncated, by rw [scan.eq_def]; rfl⟩
        · exact ⟨.truncated, by rw [scan.eq_def]; rfl⟩
        · exact absurd hk (Nat.not_lt.mpr (Nat.le_add_left 2 k))
    | unit h =>
        rcases k with _ | _ | _ | _ | _ | _ | k
        case succ.succ.succ.succ.succ.succ =>
          exact absurd hk (Nat.not_lt.mpr (Nat.le_add_left 6 k))
        all_goals exact ⟨_, by rw [scan.eq_def]; rfl⟩
  have hlength : cut.length < (cut ++ rest).length := by
    rw [List.length_append]
    exact Nat.lt_add_of_pos_right (List.length_pos_of_ne_nil hrest)
  have hcut := hfails _ h cut.length hlength
  rwa [List.take_left] at hcut

/-- **A string without its closing quote goes wrong**, and takes the rest of the text with it. -/
theorem scan_cut {ps : List Piece} {body cut rest : List Char} (h : SpellsPieces ps body)
    (htext : body = cut ++ rest) : (scan cut).1.fault.isSome ∧ (scan cut).2 = [] := by
  induction h generalizing cut with
  | nil =>
      obtain ⟨rfl, -⟩ := List.append_eq_nil_iff.mp htext.symm
      rw [scan.eq_def]
      exact ⟨rfl, rfl⟩
  | @cons p ps cs ds hp hps ih =>
      rcases List.append_eq_append_iff.mp htext with ⟨cut', rfl, htail⟩ | ⟨more, rfl, -⟩
      · rw [scan_piece hp]
        exact ih htail
      · cases more with
        | nil =>
            have hwhole := scan_piece hp []
            rw [List.append_nil, List.append_nil] at hwhole
            rw [hwhole, scan.eq_def]
            exact ⟨rfl, rfl⟩
        | cons c more =>
            obtain ⟨f, hscan⟩ := scan_piece_cut hp (List.cons_ne_nil c more)
            rw [hscan]
            exact ⟨rfl, rfl⟩

end Quotation

namespace Token

theorem word_cut (meaning : Token) {letters cut rest : List Char} (htext : letters = cut ++ rest)
    (hrest : rest ≠ []) : word meaning letters cut = (.broken .truncated, []) := by
  induction cut generalizing letters with
  | nil =>
      obtain rfl : letters = rest := htext
      cases letters with
      | nil => exact absurd rfl hrest
      | cons letter letters => rfl
  | cons c cut ih =>
      subst htext
      rw [List.cons_append, word, if_pos rfl]
      exact ih rfl

/-- **What is scanned of a token that is cut.** -/
theorem next?_cut {t : Token} {cut rest : List Char} (h : t.Spells (cut ++ rest))
    (hcut : cut ≠ []) (hrest : rest ≠ []) : ∃ t', next? cut = some (t', []) ∧ t'.Cut t := by
  cases cut with
  | nil => exact absurd rfl hcut
  | cons c cut =>
      cases t with
      | number n => exact next?_number_cut h hcut
      | text q =>
          obtain ⟨-, body, hbody, htext⟩ := h
          obtain ⟨rfl, htail⟩ := List.cons.inj htext
          -- at least the closing quote is gone
          have hbegun : ∃ more, body = cut ++ more := by
            rcases List.append_eq_append_iff.mp htail with ⟨more, hbody, -⟩ | ⟨more, hcut, hquote⟩
            · exact ⟨more, hbody⟩
            · obtain ⟨rfl, -⟩ := (List.append_eq_singleton_iff.mp hquote.symm).resolve_right
                fun h => hrest h.2
              exact ⟨[], by rw [List.append_nil, hcut, List.append_nil]⟩
          obtain ⟨more, hbegun⟩ := hbegun
          obtain ⟨hfault, hend⟩ := Quotation.scan_cut hbody hbegun
          refine ⟨.text (Quotation.scan cut).1, next?_of_start rfl ?_, .text q hfault⟩
          rw [← hend]
          rfl
      | null =>
          obtain ⟨rfl, htail⟩ := List.cons.inj h
          exact ⟨_, next?_of_start rfl (word_cut .null htail.symm hrest), .null _⟩
      | flag b =>
          cases b with
          | true =>
              obtain ⟨rfl, htail⟩ := List.cons.inj h
              exact ⟨_, next?_of_start rfl (word_cut (.flag true) htail.symm hrest), .flag _ _⟩
          | false =>
              obtain ⟨rfl, htail⟩ := List.cons.inj h
              exact ⟨_, next?_of_start rfl (word_cut (.flag false) htail.symm hrest), .flag _ _⟩
      | broken f | brokenNumber f => exact nomatch h
      | _ =>
          -- a token of one character has nothing to be cut
          have hlength := congrArg List.length h
          rw [List.length_append] at hlength
          have := List.length_pos_of_ne_nil hrest
          simp only [List.length_cons, List.length_nil] at hlength
          omega

end Token

/-! ## Cutting tokens -/

/-- What is left of tokens when their text ends before the last of them does. -/
inductive CutTokens : List Token → List Token → Prop
  | between (t : Token) (ts : List Token) : CutTokens [] (t :: ts)
  | inside {t' t : Token} (ts : List Token) (h : t'.Cut t) : CutTokens [t'] (t :: ts)
  | after (t : Token) {ts' ts : List Token} (h : CutTokens ts' ts) : CutTokens (t :: ts') (t :: ts)

/-- A cut leaves a first part as it is, or it is in that part. -/
theorem CutTokens.of_append {ts' as bs : List Token} (h : CutTokens ts' (as ++ bs)) :
    CutTokens ts' as ∨ ∃ bs', ts' = as ++ bs' ∧ CutTokens bs' bs := by
  induction as generalizing ts' with
  | nil => exact Or.inr ⟨ts', rfl, h⟩
  | cons a as ih =>
      cases h with
      | between => exact Or.inl (.between a as)
      | inside _ h => exact Or.inl (.inside as h)
      | after _ hmore =>
          rcases ih hmore with has | ⟨bs', rfl, hbs⟩
          · exact Or.inl (.after a has)
          · exact Or.inr ⟨bs', rfl, hbs⟩

/-- Blanks alone have no token. -/
theorem scan_blanks {blanks : List Char} (h : ∀ c ∈ blanks, isBlank c = true) :
    Token.scan blanks = [] := by
  rw [← List.append_nil blanks, Token.scan_blanks_append h, Token.scan_nil]

/-- **A text that is cut has the tokens that are left.** Blanks may be cut from its end without
    a loss. -/
theorem cutTokens_scan {ts : List Token} {cs cut rest : List Char} (h : Spaced ts cs)
    (hapart : NumbersApart ts) (htext : cs = cut ++ rest) (hrest : ∃ c ∈ rest, isBlank c = false) :
    CutTokens (Token.scan cut) ts := by
  induction h generalizing cut with
  | @nil blanks hblanks =>
      obtain ⟨c, hc, hcblank⟩ := hrest
      have := hblanks c (htext ▸ List.mem_append_right cut hc)
      exact nomatch this.symm.trans hcblank
  | @cons t ts blanks ds more hblanks ht hts ih =>
      have hwhole : ∀ cut', more = cut' ++ rest →
          CutTokens (Token.scan (ds ++ cut')) (t :: ts) := by
        intro cut' hmore
        have hend : t.isNumber = true → EndsNumber cut' := by
          intro hnumber c hc
          refine Token.endsNumber_of_spaced hts hapart hnumber c ?_
          rw [hmore]
          exact List.mem_head?_append_of_mem_head? hc
        rw [Token.scan_of_next?_some (Token.next?_of_spells ht hend)]
        exact .after t (ih hapart.of_cons hmore)
      rcases List.append_eq_append_iff.mp htext with ⟨cut', rfl, htail⟩ | ⟨rest', hcut, -⟩
      · rw [Token.scan_blanks_append hblanks]
        rcases List.append_eq_append_iff.mp htail with ⟨cut'', rfl, hmore⟩ | ⟨rest', rfl, hmore⟩
        · exact hwhole cut'' hmore
        · by_cases hrest' : rest' = []
          · subst hrest'
            have hcut := hwhole [] hmore.symm
            rwa [List.append_nil, List.append_nil] at hcut
          · by_cases hcut' : cut' = []
            · rw [hcut', Token.scan_nil]
              exact .between t ts
            · -- the text ends inside the token
              obtain ⟨t', hscan, ht'⟩ := Token.next?_cut ht hcut' hrest'
              rw [Token.scan_of_next?_some hscan, Token.scan_nil]
              exact .inside ts ht'
      · -- the text ends before the token
        have hcutblank : ∀ c ∈ cut, isBlank c = true := fun c hc =>
          hblanks c (hcut ▸ List.mem_append_left _ hc)
        rw [scan_blanks hcutblank]
        exact .between t ts

/-! ## Cutting sketches -/

mutual

/-- What is left of a sketch when its text ends before it does. -/
inductive Sketch.Cut : Sketch → Sketch → Prop
  | broken (f : Fault) (s : Sketch) : Sketch.Cut (.broken f) s
  | brokenNumber (f : Fault) (n : Numeral) : Sketch.Cut (.brokenNumber f) (.number n)
  | number {n' n : Numeral} (h : n'.Cut n) : Sketch.Cut (.number n') (.number n)
  | text {q' : Quotation} (q : Quotation) (h : q'.fault.isSome) : Sketch.Cut (.text q') (.text q)
  | array {items' items : List Sketch} (f : Fault) (fault : Option Fault)
      (h : CutItems items' items) : Sketch.Cut (.array items' (some f)) (.array items fault)
  | object {members' members : List (Quotation × Sketch)} (f : Fault) (fault : Option Fault)
      (h : CutMembers members' members) :
      Sketch.Cut (.object members' (some f)) (.object members fault)

/-- What is left of the items of an array. -/
inductive CutItems : List Sketch → List Sketch → Prop
  | between (vs : List Sketch) : CutItems [] vs
  | inside {v' v : Sketch} (vs : List Sketch) (h : Sketch.Cut v' v) : CutItems [v'] (v :: vs)
  | after (v : Sketch) {vs' vs : List Sketch} (h : CutItems vs' vs) :
      CutItems (v :: vs') (v :: vs)

/-- What is left of the members of an object; the cut may be inside a name. -/
inductive CutMembers : List (Quotation × Sketch) → List (Quotation × Sketch) → Prop
  | between (ms : List (Quotation × Sketch)) : CutMembers [] ms
  | inName {q' : Quotation} (v' : Sketch) (ms : List (Quotation × Sketch))
      (h : q'.fault.isSome) : CutMembers [(q', v')] ms
  | inValue (q : Quotation) {v' v : Sketch} (ms : List (Quotation × Sketch))
      (h : Sketch.Cut v' v) : CutMembers [(q, v')] ((q, v) :: ms)
  | after (m : Quotation × Sketch) {ms' ms : List (Quotation × Sketch)} (h : CutMembers ms' ms) :
      CutMembers (m :: ms') (m :: ms)

end

/-- When the text ends, something of `P` is left in the arrays and objects that are open. -/
def Builder.Leaves (b : Builder) (stack : List Frame) (P : Fault → Sketch → Prop) : Prop :=
  ∃ f s, P f s ∧ b.finish = (abandon f s stack, false)

theorem leaves_leaf {t : Token} {s : Sketch} {ts : List Token} (h : CutTokens ts [t])
    (hs : ∀ t', t'.Cut t → ∀ stack, (Builder.stepValue stack t').Leaves stack fun _ s' => s'.Cut s)
    (stack : List Frame) :
    (ts.foldl Builder.step (.dueValue stack)).Leaves stack fun _ s' => s'.Cut s := by
  cases h with
  | between => exact ⟨.truncated, .broken .truncated, .broken _ s, rfl⟩
  | inside _ h => exact hs _ h stack
  | after _ h => exact nomatch h

/-- No bracket closes at the beginning of what is left of a sketch. -/
theorem head?_ne_closeArray {s : Sketch} {ts : List Token} (h : CutTokens ts s.tokens) :
    ts.head? ≠ some .closeArray := by
  have hfirst : s.tokens.head? ≠ some .closeArray := by
    cases s <;> exact nofun
  generalize s.tokens = full at h hfirst
  cases h with
  | between => exact nofun
  | inside _ ht => cases ht <;> exact nofun
  | after t _ => exact hfirst

/-- The first item of an array is left like any other value, or nothing is left of it. -/
theorem leaves_firstItem {s : Sketch} {ts : List Token} (h : CutTokens ts s.tokens)
    {stack : List Frame}
    (hs : (ts.foldl Builder.step (.dueValue (.array [] :: stack))).Leaves (.array [] :: stack)
      fun _ s' => s'.Cut s) :
    (ts.foldl Builder.step (.dueItem stack)).Leaves stack fun f s' =>
      ∃ vs', s' = .array vs' (some f) ∧ ∀ vs, CutItems vs' (s :: vs) := by
  have hhead := head?_ne_closeArray h
  cases ts with
  | nil => exact ⟨.truncated, _, ⟨[], rfl, fun vs => .between _⟩, rfl⟩
  | cons t ts =>
      obtain ⟨f, s', hcut, hfinish⟩ := hs
      refine ⟨f, _, ⟨[s'], rfl, fun vs => .inside vs hcut⟩, ?_⟩
      rw [List.foldl_cons, Builder.step_dueItem fun ht => hhead (congrArg some ht)]
      exact hfinish

/-- The first name of an object is left like any other. -/
theorem finish_firstMember {q : Quotation} {ts full : List Token}
    (h : CutTokens ts (.text q :: full)) {stack : List Frame} :
    (ts.foldl Builder.step (.dueMember stack)).finish =
      (ts.foldl Builder.step (.dueName [] stack)).finish := by
  cases h with
  | between | after _ _ => rfl
  | inside _ ht =>
      cases ht with
      | text q hq => rfl

/-- A member is left where its name is due: before the name, in it, before the colon, in the value,
    or in what follows. -/
theorem leaves_member {q : Quotation} (hq : (Token.text q).sound = true) {v : Sketch}
    (hv : AllSound v.tokens) {ms : List (Quotation × Sketch)} {ts more : List Token}
    (h : CutTokens ts (.text q :: .colon :: (v.tokens ++ more)))
    {before : List (Quotation × Sketch)} {stack : List Frame}
    (hvalue : ∀ ts, CutTokens ts v.tokens →
      (ts.foldl Builder.step (.dueValue (.object before q :: stack))).Leaves
        (.object before q :: stack) fun _ s' => s'.Cut v)
    (hmore : ∀ ts, CutTokens ts more →
      (ts.foldl Builder.step (.settled v (.object before q :: stack))).Leaves stack fun f s' =>
        ∃ ms', s' = .object (((q, v) :: before).reverse ++ ms') (some f) ∧ CutMembers ms' ms) :
    (ts.foldl Builder.step (.dueName before stack)).Leaves stack fun f s' =>
      ∃ ms', s' = .object (before.reverse ++ ms') (some f) ∧ CutMembers ms' ((q, v) :: ms) := by
  cases h with
  | between =>
      refine ⟨.truncated, _, ⟨[], rfl, .between _⟩, ?_⟩
      rw [List.append_nil]
      rfl
  | inside _ ht =>
      cases ht with
      | @text q' _ hq' =>
          obtain ⟨f, hf⟩ := Option.isSome_iff_exists.mp hq'
          refine ⟨f, _, ⟨[(q', .broken f)], rfl, .inName _ _ hq'⟩, ?_⟩
          rw [← List.reverse_cons]
          show (Builder.stepName before stack (.text q')).finish = _
          rw [Builder.stepName, hf]
          rfl
  | after _ h =>
      rw [List.foldl_cons]
      show (List.foldl Builder.step (Builder.stepName before stack (.text q)) _).Leaves _ _
      rw [Builder.stepName_text hq]
      cases h with
      | between =>
          refine ⟨.truncated, _, ⟨[(q, .broken .truncated)], rfl,
            .inValue q ms (.broken .truncated v)⟩, ?_⟩
          rw [← List.reverse_cons]
          rfl
      | inside _ ht => cases ht
      | after _ h =>
          show (List.foldl Builder.step (.dueValue (.object before q :: stack)) _).Leaves _ _
          rcases h.of_append with hcut | ⟨ts', rfl, hcut⟩
          · obtain ⟨f, v', hv', hfinish⟩ := hvalue _ hcut
            refine ⟨f, _, ⟨[(q, v')], rfl, .inValue q ms hv'⟩, ?_⟩
            rw [hfinish, ← List.reverse_cons]
            rfl
          · rw [foldl_step_sketch hv]
            obtain ⟨f, _, ⟨ms', rfl, hms'⟩, hfinish⟩ := hmore ts' hcut
            refine ⟨f, _, ⟨(q, v) :: ms', rfl, .after _ hms'⟩, ?_⟩
            rw [hfinish, List.reverse_cons, List.append_assoc]
            rfl

mutual

/-- **The builder leaves a cut sketch of cut tokens.** -/
theorem leaves_sketch {s : Sketch} (hsound : AllSound s.tokens) {ts : List Token}
    (h : CutTokens ts s.tokens) (stack : List Frame) :
    (ts.foldl Builder.step (.dueValue stack)).Leaves stack fun _ s' => s'.Cut s := by
  match s with
  | .broken f | .brokenNumber f => exact nomatch hsound _ (List.mem_singleton_self _)
  | .null =>
      refine leaves_leaf h (fun t' ht' stack => ?_) stack
      cases ht' with
      | null f => exact ⟨f, _, .broken f _, rfl⟩
  | .flag b =>
      refine leaves_leaf h (fun t' ht' stack => ?_) stack
      cases ht' with
      | flag f => exact ⟨f, _, .broken f _, rfl⟩
  | .number n =>
      refine leaves_leaf h (fun t' ht' stack => ?_) stack
      cases ht' with
      | brokenNumber f => exact ⟨f, _, .brokenNumber f n, rfl⟩
      | number hn => exact ⟨.truncated, _, .number hn, rfl⟩
  | .text q =>
      refine leaves_leaf h (fun t' ht' stack => ?_) stack
      cases ht' with
      | @text q' _ hq' =>
          obtain ⟨f, hf⟩ := Option.isSome_iff_exists.mp hq'
          refine ⟨f, .text q', .text q hq', ?_⟩
          rw [Builder.stepValue, hf]
          rfl
  | .array items fault =>
      obtain ⟨hitems, hclosed⟩ := List.forall_mem_append.mp (List.forall_mem_cons.mp hsound).2
      obtain rfl := eq_none_of_sound_closing (hclosed _ (List.mem_singleton_self _))
      cases h with
      | between => exact ⟨.truncated, _, .broken .truncated _, rfl⟩
      | inside _ h => exact nomatch h
      | after _ h =>
          show (List.foldl Builder.step (.dueItem stack) _).Leaves _ _
          match items with
          | [] =>
              cases h with
              | between => exact ⟨.truncated, _, .array _ _ (.between _), rfl⟩
              | inside _ h => exact nomatch h
              | after _ h => exact nomatch h
          | v :: vs =>
              obtain ⟨hv, hvs⟩ := List.forall_mem_append.mp hitems
              rw [Sketch.itemTokens, List.append_assoc] at h
              rcases h.of_append with hcut | ⟨ts', rfl, hcut⟩
              · obtain ⟨f, _, ⟨vs', rfl, hvs'⟩, hfinish⟩ :=
                  leaves_firstItem hcut (leaves_sketch hv hcut (.array [] :: stack))
                exact ⟨f, _, .array f _ (hvs' vs), hfinish⟩
              · rw [foldl_step_firstItem hv, foldl_step_sketch hv]
                obtain ⟨f, _, ⟨vs', rfl, hvs'⟩, hfinish⟩ := leaves_moreItems hvs hcut [] v stack
                exact ⟨f, _, .array f _ (.after v hvs'), hfinish⟩
  | .object members fault =>
      obtain ⟨hmembers, hclosed⟩ := List.forall_mem_append.mp (List.forall_mem_cons.mp hsound).2
      obtain rfl := eq_none_of_sound_closing (hclosed _ (List.mem_singleton_self _))
      cases h with
      | between => exact ⟨.truncated, _, .broken .truncated _, rfl⟩
      | inside _ h => exact nomatch h
      | after _ h =>
          show (List.foldl Builder.step (.dueMember stack) _).Leaves _ _
          match members with
          | [] =>
              cases h with
              | between => exact ⟨.truncated, _, .object _ _ (.between _), rfl⟩
              | inside _ h => exact nomatch h
              | after _ h => exact nomatch h
          | (q, v) :: ms =>
              obtain ⟨hq, hmembers⟩ := List.forall_mem_cons.mp hmembers
              obtain ⟨hv, hms⟩ := List.forall_mem_append.mp (List.forall_mem_cons.mp hmembers).2
              rw [Sketch.memberTokens, List.cons_append, List.cons_append, List.append_assoc] at h
              obtain ⟨f, _, ⟨ms', rfl, hms'⟩, hfinish⟩ := leaves_member hq hv h
                (fun _ hcut => leaves_sketch hv hcut (.object [] q :: stack))
                fun _ hcut => leaves_moreMembers hms hcut [] q v stack
              rw [← finish_firstMember h] at hfinish
              exact ⟨f, _, .object f _ hms', hfinish⟩

/-- The items that follow a complete item. -/
theorem leaves_moreItems {vs : List Sketch} (hsound : AllSound (Sketch.moreItemTokens vs))
    {ts : List Token} (h : CutTokens ts (Sketch.moreItemTokens vs ++ [.closeArray]))
    (before : List Sketch) (v : Sketch) (stack : List Frame) :
    (ts.foldl Builder.step (.settled v (.array before :: stack))).Leaves stack fun f s' =>
      ∃ vs', s' = .array ((v :: before).reverse ++ vs') (some f) ∧ CutItems vs' vs := by
  have hnone : (Builder.settled v (.array before :: stack)).Leaves stack fun f s' =>
      ∃ vs', s' = .array ((v :: before).reverse ++ vs') (some f) ∧ CutItems vs' vs := by
    refine ⟨.truncated, _, ⟨[], rfl, .between vs⟩, ?_⟩
    rw [List.append_nil]
    rfl
  match vs with
  | [] =>
      cases h with
      | between => exact hnone
      | inside _ h => exact nomatch h
      | after _ h => exact nomatch h
  | w :: vs =>
      obtain ⟨hw, hvs⟩ := List.forall_mem_append.mp (List.forall_mem_cons.mp hsound).2
      rw [Sketch.moreItemTokens, List.cons_append, List.append_assoc] at h
      cases h with
      | between => exact hnone
      | inside _ h => exact nomatch h
      | after _ h =>
          show (List.foldl Builder.step (.dueValue (.array (v :: before) :: stack)) _).Leaves _ _
          rcases h.of_append with hcut | ⟨ts', rfl, hcut⟩
          · obtain ⟨f, w', hw', hfinish⟩ := leaves_sketch hw hcut (.array (v :: before) :: stack)
            refine ⟨f, _, ⟨[w'], rfl, .inside vs hw'⟩, ?_⟩
            rw [hfinish, ← List.reverse_cons]
            rfl
          · rw [foldl_step_sketch hw]
            obtain ⟨f, _, ⟨vs', rfl, hvs'⟩, hfinish⟩ :=
              leaves_moreItems hvs hcut (v :: before) w stack
            refine ⟨f, _, ⟨w :: vs', rfl, .after w hvs'⟩, ?_⟩
            rw [hfinish, List.reverse_cons, List.append_assoc]
            rfl

/-- The members that follow a complete member. -/
theorem leaves_moreMembers {ms : List (Quotation × Sketch)}
    (hsound : AllSound (Sketch.moreMemberTokens ms)) {ts : List Token}
    (h : CutTokens ts (Sketch.moreMemberTokens ms ++ [.closeObject]))
    (before : List (Quotation × Sketch)) (q : Quotation) (v : Sketch) (stack : List Frame) :
    (ts.foldl Builder.step (.settled v (.object before q :: stack))).Leaves stack fun f s' =>
      ∃ ms', s' = .object (((q, v) :: before).reverse ++ ms') (some f) ∧ CutMembers ms' ms := by
  have hnone : (Builder.settled v (.object before q :: stack)).Leaves stack fun f s' =>
      ∃ ms', s' = .object (((q, v) :: before).reverse ++ ms') (some f) ∧ CutMembers ms' ms := by
    refine ⟨.truncated, _, ⟨[], rfl, .between ms⟩, ?_⟩
    rw [List.append_nil]
    rfl
  match ms with
  | [] =>
      cases h with
      | between => exact hnone
      | inside _ h => exact nomatch h
      | after _ h => exact nomatch h
  | (q', w) :: ms =>
      obtain ⟨hq', hmembers⟩ := List.forall_mem_cons.mp (List.forall_mem_cons.mp hsound).2
      obtain ⟨hw, hms⟩ := List.forall_mem_append.mp (List.forall_mem_cons.mp hmembers).2
      rw [Sketch.moreMemberTokens, List.cons_append, List.cons_append, List.cons_append,
        List.append_assoc] at h
      cases h with
      | between => exact hnone
      | inside _ h => exact nomatch h
      | after _ h =>
          exact leaves_member hq' hw h
            (fun _ hcut => leaves_sketch hw hcut (.object ((q, v) :: before) q' :: stack))
            fun _ hcut => leaves_moreMembers hms hcut ((q, v) :: before) q' w stack

end

/-- **The outline of a text that is cut is cut.** -/
theorem cut_outline {text cut rest : String} {s : Sketch} (h : Spells text s)
    (htext : text = cut ++ rest) (hrest : ∃ c ∈ rest.toList, isBlank c = false) :
    ∃ s', Outline.ofText cut = ⟨s', false⟩ ∧ s'.Cut s := by
  have hapart := numbersApart_tokens s List.isChain_nil fun t ht => nomatch ht
  rw [List.append_nil] at hapart
  have hcut := cutTokens_scan h hapart (by rw [htext, String.toList_append]) hrest
  obtain ⟨f, s', hs', hfinish⟩ := leaves_sketch h.sound hcut []
  refine ⟨s', ?_, hs'⟩
  rw [Outline.ofText, Outline.ofTokens, hfinish]
  rfl

end CaskLint.Json
