import CaskLint.Json.Token
import Mathlib.Data.List.Chain
import Mathlib.Data.List.TakeWhile
import Mathlib.Tactic.SplitIfs

/-!
# How tokens may be spelled

  What a token may look like in a text, apart from how it is scanned: a number may write its
  exponent with `e` or `E` and with or without a plus sign, a character of a string may stand for
  itself or be escaped (**`Token.Spells`**), and blanks may stand before and after every token
  (**`Spaced`**).

  The scanner takes a text apart into the tokens that it is spelled of (**`scan_of_spaced`**), and
  what it takes apart without a fault is spelled of these tokens (**`spaced_of_scan`**). Only a
  number needs its end to be seen: the text after it must not go on with it (`EndsNumber`).
-/

namespace CaskLint.Json

/-! ## Numbers -/

/-- The sign of an exponent; a plus sign may be left out. -/
inductive SpellsSign : Bool → List Char → Prop
  | minus : SpellsSign true ['-']
  | plus : SpellsSign false ['+']
  | absent : SpellsSign false []

/-- The text of an exponent if there is one. -/
inductive SpellsExponent : Option Exponent → List Char → Prop
  | absent : SpellsExponent none []
  | present {e : Exponent} {mark : Char} {sign : List Char} (hmark : mark = 'e' ∨ mark = 'E')
      (hsign : SpellsSign e.negative sign) : SpellsExponent (some e) (mark :: (sign ++ e.digits))

/-- The text of a fraction; without digits there is none. -/
def spellFraction : List Char → List Char
  | [] => []
  | d :: ds => '.' :: d :: ds

namespace Numeral

/-- A numeral as the number format asks for it: digits, of which only a single zero may lead. -/
structure Proper (n : Numeral) : Prop where
  whole_digits : ∀ c ∈ n.whole, c.isDigit = true
  whole_ne_nil : n.whole ≠ []
  leading : n.whole.head? = some '0' → n.whole.length = 1
  fraction_digits : ∀ c ∈ n.fraction, c.isDigit = true
  exponent_digits : ∀ e, n.exponent = some e → e.digits ≠ [] ∧ ∀ c ∈ e.digits, c.isDigit = true

/-- The text of a numeral after its sign. -/
def SpellsUnsigned (n : Numeral) (cs : List Char) : Prop :=
  n.Proper ∧ ∃ es, SpellsExponent n.exponent es ∧
    cs = n.whole ++ (spellFraction n.fraction ++ es)

/-- The text of a numeral. -/
def Spells (n : Numeral) (cs : List Char) : Prop :=
  ∃ ds, n.SpellsUnsigned ds ∧ cs = (if n.negative then ['-'] else []) ++ ds

end Numeral

/-- A text that does not go on with a number. -/
def EndsNumber (rest : List Char) : Prop :=
  ∀ c ∈ rest.head?, c.isDigit = false ∧ c ≠ '.' ∧ c ≠ 'e' ∧ c ≠ 'E'

theorem endsNumber_nil : EndsNumber [] := fun _ h => nomatch h

theorem endsNumber_cons {c : Char} {rest : List Char}
    (h : c.isDigit = false ∧ c ≠ '.' ∧ c ≠ 'e' ∧ c ≠ 'E') : EndsNumber (c :: rest) := by
  intro c' hc
  obtain rfl := Option.some.inj hc
  exact h

namespace Token

/-! ### Scanning what is spelled -/

theorem takeWhile_isDigit_append {ds rest : List Char} (hds : ∀ c ∈ ds, c.isDigit = true)
    (hrest : ∀ c ∈ rest.head?, c.isDigit = false) :
    (ds ++ rest).takeWhile Char.isDigit = ds := by
  rw [List.takeWhile_append_of_pos hds]
  cases rest with
  | nil => exact List.append_nil ds
  | cons c cs =>
      rw [List.takeWhile_cons_of_neg (by simpa using hrest c rfl)]
      exact List.append_nil ds

theorem dropWhile_isDigit_append {ds rest : List Char} (hds : ∀ c ∈ ds, c.isDigit = true)
    (hrest : ∀ c ∈ rest.head?, c.isDigit = false) :
    (ds ++ rest).dropWhile Char.isDigit = rest := by
  rw [List.dropWhile_append_of_pos hds]
  cases rest with
  | nil => rfl
  | cons c cs => rw [List.dropWhile_cons_of_neg (by simpa using hrest c rfl)]

theorem ne_of_isDigit {c m : Char} (hc : c.isDigit = true) (hm : m.isDigit = false) : c ≠ m := by
  rintro rfl
  rw [hc] at hm
  cases hm

/-- A sign and digits are an exponent. -/
theorem exponent_spelled (n : Numeral) {e : Exponent} {sign rest : List Char}
    (hsign : SpellsSign e.negative sign) (hne : e.digits ≠ [])
    (hds : ∀ c ∈ e.digits, c.isDigit = true) (hrest : EndsNumber rest) :
    exponent n (sign ++ (e.digits ++ rest)) = (.number { n with exponent := some e }, rest) := by
  obtain ⟨negative, digits⟩ := e
  have htake := takeWhile_isDigit_append hds fun c hc => (hrest c hc).1
  have hdrop := dropWhile_isDigit_append hds fun c hc => (hrest c hc).1
  have hempty : digits.isEmpty = false := List.isEmpty_eq_false_iff.mpr hne
  dsimp only at hsign htake hdrop ⊢
  cases hsign with
  | minus =>
      show exponent n ('-' :: (digits ++ rest)) = _
      simp only [exponent, htake, hdrop, hempty]
      rfl
  | plus =>
      show exponent n ('+' :: (digits ++ rest)) = _
      simp only [exponent, htake, hdrop, hempty]
      rfl
  | absent =>
      cases digits with
      | nil => exact absurd rfl hne
      | cons d ds =>
          -- a digit is no sign
          have hd : d.isDigit = true := hds d List.mem_cons_self
          have hplus : d ≠ '+' := ne_of_isDigit hd rfl
          have hminus : d ≠ '-' := ne_of_isDigit hd rfl
          show exponent n (d :: (ds ++ rest)) = _
          unfold exponent
          split
          rename_i negative cs h
          split at h
          · exact absurd (List.cons.inj ‹_›).1 hplus
          · exact absurd (List.cons.inj ‹_›).1 hminus
          · obtain ⟨rfl, rfl⟩ := Prod.mk.inj h
            rw [List.cons_append] at htake hdrop
            simp only [htake, hdrop, hempty]
            rfl

/-- An exponent is read where one is spelled, and none where the number ends. -/
theorem exponent?_spelled {n : Numeral} (hn : n.exponent = none) {exp : Option Exponent}
    {es rest : List Char} (hes : SpellsExponent exp es)
    (hds : ∀ e, exp = some e → e.digits ≠ [] ∧ ∀ c ∈ e.digits, c.isDigit = true)
    (hrest : EndsNumber rest) :
    exponent? n (es ++ rest) = (.number { n with exponent := exp }, rest) := by
  cases hes with
  | @present e mark sign hmark hsign =>
      obtain ⟨hne, hdigits⟩ := hds e rfl
      show (if mark = 'e' ∨ mark = 'E' then exponent n (sign ++ e.digits ++ rest) else _) = _
      rw [if_pos hmark, List.append_assoc]
      exact exponent_spelled n hsign hne hdigits hrest
  | absent =>
      have hsame : { n with exponent := none } = n := by rw [← hn]
      rw [hsame]
      cases rest with
      | nil => rfl
      | cons c cs =>
          obtain ⟨-, -, he, hE⟩ := hrest c rfl
          show (if c = 'e' ∨ c = 'E' then exponent n cs else (.number n, c :: cs)) = _
          rw [if_neg (by simp [he, hE])]

/-- No digit and no point stands at the exponent, spelled or not. -/
theorem head_spellsExponent {exp : Option Exponent} {es rest : List Char}
    (hes : SpellsExponent exp es) (hrest : EndsNumber rest) :
    ∀ c ∈ (es ++ rest).head?, c.isDigit = false ∧ c ≠ '.' := by
  cases hes with
  | absent => exact fun c hc => ⟨(hrest c hc).1, (hrest c hc).2.1⟩
  | present hmark _ =>
      intro c hc
      obtain rfl := Option.some.inj hc
      rcases hmark with rfl | rfl <;> decide

theorem fraction?_spelled {n : Numeral} (hn : n.Proper) {es rest : List Char}
    (hes : SpellsExponent n.exponent es) (hrest : EndsNumber rest) :
    fraction? ⟨n.negative, n.whole, [], none⟩ (spellFraction n.fraction ++ (es ++ rest)) =
      (.number n, rest) := by
  obtain ⟨negative, whole, fraction, exp⟩ := n
  have hhead : ∀ c ∈ (es ++ rest).head?, c.isDigit = false ∧ c ≠ '.' :=
    head_spellsExponent hes hrest
  have hexp : exponent? ⟨negative, whole, fraction, none⟩ (es ++ rest) =
      (.number ⟨negative, whole, fraction, exp⟩, rest) :=
    exponent?_spelled rfl hes hn.exponent_digits hrest
  dsimp only
  cases fraction with
  | nil =>
      -- nothing is spelled for an absent fraction: the text goes on with the exponent or ends
      rw [spellFraction, List.nil_append]
      cases htext : es ++ rest with
      | nil =>
          rw [htext] at hexp
          exact hexp
      | cons c cs =>
          rw [htext] at hexp hhead
          rw [fraction?, if_neg (hhead c rfl).2]
          exact hexp
  | cons f fs =>
      have htake := takeWhile_isDigit_append hn.fraction_digits fun c hc => (hhead c hc).1
      have hdrop := dropWhile_isDigit_append hn.fraction_digits fun c hc => (hhead c hc).1
      show fraction? _ ('.' :: ((f :: fs) ++ (es ++ rest))) = _
      rw [fraction?, if_pos rfl, htake, hdrop]
      exact hexp

/-- The digits of the whole part end where the fraction or the exponent begins. -/
theorem head_afterWhole (fraction : List Char) {exp : Option Exponent} {es rest : List Char}
    (hes : SpellsExponent exp es) (hrest : EndsNumber rest) :
    ∀ c ∈ (spellFraction fraction ++ (es ++ rest)).head?, c.isDigit = false := by
  intro c hc
  cases fraction with
  | cons f fs =>
      obtain rfl := Option.some.inj hc
      decide
  | nil => exact (head_spellsExponent hes hrest c hc).1

/-- No zero stands in front of other digits, which the scanner would reject. -/
theorem not_leading {n : Numeral} (hn : n.Proper) :
    ¬ (n.whole.head? = some '0' ∧ 1 < n.whole.length) := by
  rintro ⟨hzero, hlong⟩
  have := hn.leading hzero
  omega

/-- The text of a numeral after its sign is scanned as the numeral. -/
theorem afterSign_spelled {n : Numeral} {cs rest : List Char} (h : n.SpellsUnsigned cs)
    (hrest : EndsNumber rest) : afterSign n.negative (cs ++ rest) = (.number n, rest) := by
  obtain ⟨hn, es, hes, rfl⟩ := h
  have hhead := head_afterWhole n.fraction hes hrest
  rw [List.append_assoc, List.append_assoc, afterSign,
    takeWhile_isDigit_append hn.whole_digits hhead, dropWhile_isDigit_append hn.whole_digits hhead]
  have hempty : n.whole.isEmpty = false := List.isEmpty_eq_false_iff.mpr hn.whole_ne_nil
  simp only [hempty, not_leading hn]
  exact fraction?_spelled hn hes hrest

/-- Digits begin no bracket, comma, colon, text or word. -/
theorem start_digit {c : Char} (hc : c.isDigit = true) (cs : List Char) :
    start c cs = afterSign false (c :: cs) := by
  have hne : ∀ m : Char, m.isDigit = false → c ≠ m := fun m hm => ne_of_isDigit hc hm
  have hmark : mark? c = none := by
    simp only [mark?, hne '[' rfl, hne ']' rfl, hne '\x7b' rfl, hne '\x7d' rfl, hne ',' rfl,
      hne ':' rfl, if_false]
  rw [start, hmark]
  simp only [startScalar, hne '"' rfl, hne 'n' rfl, hne 't' rfl, hne 'f' rfl, hne '-' rfl, hc,
    if_false, if_true]

theorem isBlank_eq_false_of_isDigit {c : Char} (hc : c.isDigit = true) : isBlank c = false := by
  have hne : ∀ m : Char, m.isDigit = false → c ≠ m := fun m hm => ne_of_isDigit hc hm
  simp [isBlank, hne ' ' rfl, hne '\n' rfl, hne '\t' rfl, hne '\r' rfl]

theorem next?_of_start {c : Char} (hc : isBlank c = false) {cs rest : List Char} {t : Token}
    (h : start c cs = (t, rest)) : next? (c :: cs) = some (t, rest) := by
  rw [next?, List.dropWhile_cons_of_neg (by simp [hc])]
  exact congrArg some h

/-- **Numerals are scanned as they are spelled**, up to a text that does not go on with them. -/
theorem next?_spelled {n : Numeral} {cs rest : List Char} (h : n.Spells cs)
    (hrest : EndsNumber rest) : next? (cs ++ rest) = some (.number n, rest) := by
  obtain ⟨ds, hds, rfl⟩ := h
  have hscan := afterSign_spelled hds hrest
  cases hneg : n.negative with
  | true =>
      rw [hneg] at hscan
      exact next?_of_start rfl hscan
  | false =>
      rw [hneg] at hscan
      obtain ⟨hn, es, -, rfl⟩ := hds
      cases hwhole : n.whole with
      | nil => exact absurd hwhole hn.whole_ne_nil
      | cons c cs =>
          have hc : c.isDigit = true := hn.whole_digits c (by simp [hwhole])
          rw [hwhole] at hscan
          exact next?_of_start (isBlank_eq_false_of_isDigit hc) ((start_digit hc _).trans hscan)

end Token

/-! ## Strings -/

/-- The text of a piece of a string: a character stands for itself or is escaped, and any code unit
    may be written in hexadecimal. -/
inductive SpellsPiece : Piece → List Char → Prop
  | raw {c : Char} (hquote : c ≠ '"') (hslash : c ≠ '\\') (hcontrol : ¬ c.toNat < 32) :
      SpellsPiece (.char c) [c]
  | letter {letter meant : Char} (hu : letter ≠ 'u') (h : escaped? letter = some meant) :
      SpellsPiece (.char meant) ['\\', letter]
  | unit {h₁ h₂ h₃ h₄ : Char} {n : Nat} (h : codeUnit? h₁ h₂ h₃ h₄ = some n) :
      SpellsPiece (.unit n) ['\\', 'u', h₁, h₂, h₃, h₄]

/-- The text of a string between its quotes. -/
inductive SpellsPieces : List Piece → List Char → Prop
  | nil : SpellsPieces [] []
  | cons {p : Piece} {ps : List Piece} {cs ds : List Char} (hp : SpellsPiece p cs)
      (hps : SpellsPieces ps ds) : SpellsPieces (p :: ps) (cs ++ ds)

namespace Quotation

theorem scan_quote (rest : List Char) : scan ('"' :: rest) = (⟨[], none⟩, rest) := by
  rw [scan.eq_def]
  rfl

theorem scan_raw {c : Char} (hquote : c ≠ '"') (hslash : c ≠ '\\') (hcontrol : ¬ c.toNat < 32)
    (rest : List Char) : scan (c :: rest) = after (.char c) (scan rest) := by
  rw [scan.eq_def]
  dsimp only
  rw [if_neg hquote, if_neg hslash, if_neg hcontrol]

theorem scan_letter {letter meant : Char} (hu : letter ≠ 'u') (h : escaped? letter = some meant)
    (rest : List Char) : scan ('\\' :: letter :: rest) = after (.char meant) (scan rest) := by
  rw [scan.eq_def]
  dsimp only
  rw [if_neg (by decide), if_pos rfl, if_neg hu, h]

theorem scan_unit {h₁ h₂ h₃ h₄ : Char} {n : Nat} (h : codeUnit? h₁ h₂ h₃ h₄ = some n)
    (rest : List Char) :
    scan ('\\' :: 'u' :: h₁ :: h₂ :: h₃ :: h₄ :: rest) = after (.unit n) (scan rest) := by
  rw [scan.eq_def]
  dsimp only
  rw [if_neg (by decide), if_pos rfl, if_pos rfl, h]

theorem scan_piece {p : Piece} {cs : List Char} (h : SpellsPiece p cs) (rest : List Char) :
    scan (cs ++ rest) = after p (scan rest) := by
  cases h with
  | raw hquote hslash hcontrol => exact scan_raw hquote hslash hcontrol rest
  | letter hu h => exact scan_letter hu h rest
  | unit h => exact scan_unit h rest

/-- Strings are scanned as they are spelled. -/
theorem scan_spelled {ps : List Piece} {cs : List Char} (h : SpellsPieces ps cs)
    (rest : List Char) : scan (cs ++ '"' :: rest) = (⟨ps, none⟩, rest) := by
  induction h with
  | nil => exact scan_quote rest
  | cons hp _ ih =>
      rw [List.append_assoc, scan_piece hp, ih]
      rfl

end Quotation

/-! ## Tokens -/

namespace Token

/-- The text of a token; a fault has none. -/
def Spells : Token → List Char → Prop
  | .openArray, cs => cs = ['[']
  | .closeArray, cs => cs = [']']
  | .openObject, cs => cs = ['\x7b']
  | .closeObject, cs => cs = ['\x7d']
  | .comma, cs => cs = [',']
  | .colon, cs => cs = [':']
  | .null, cs => cs = ['n', 'u', 'l', 'l']
  | .flag true, cs => cs = ['t', 'r', 'u', 'e']
  | .flag false, cs => cs = ['f', 'a', 'l', 's', 'e']
  | .number n, cs => n.Spells cs
  | .text q, cs => q.fault = none ∧ ∃ body, SpellsPieces q.pieces body ∧ cs = '"' :: body ++ ['"']
  | .broken _, _ => False
  | .brokenNumber _, _ => False

/-- Whether a token is a number, so that its end must be seen. -/
def isNumber : Token → Bool
  | .number _ => true
  | _ => false

end Token

/-- The text of tokens, with blanks before and after each of them. -/
inductive Spaced : List Token → List Char → Prop
  | nil {blanks : List Char} (hblanks : ∀ c ∈ blanks, isBlank c = true) : Spaced [] blanks
  | cons {t : Token} {ts : List Token} {blanks cs rest : List Char}
      (hblanks : ∀ c ∈ blanks, isBlank c = true) (ht : t.Spells cs) (hts : Spaced ts rest) :
      Spaced (t :: ts) (blanks ++ (cs ++ rest))

namespace Spaced

variable {ts : List Token} {rest : List Char}

theorem empty : Spaced [] [] := .nil (List.forall_mem_nil _)

/-- A token without blanks before it. -/
theorem token {t : Token} {cs : List Char} (h : Spaced ts rest) (ht : t.Spells cs) :
    Spaced (t :: ts) (cs ++ rest) :=
  .cons (List.forall_mem_nil _) ht h

/-- A token of one character. -/
theorem mark {t : Token} {c : Char} (h : Spaced ts rest) (ht : t.Spells [c]) :
    Spaced (t :: ts) (c :: rest) :=
  h.token ht

/-- More blanks in front. -/
theorem blanks {more : List Char} (h : Spaced ts rest) (hmore : ∀ c ∈ more, isBlank c = true) :
    Spaced ts (more ++ rest) := by
  cases h with
  | nil hblanks => exact .nil (List.forall_mem_append.mpr ⟨hmore, hblanks⟩)
  | cons hblanks ht hts =>
      rw [← List.append_assoc]
      exact .cons (List.forall_mem_append.mpr ⟨hmore, hblanks⟩) ht hts

/-- One text after the other. -/
theorem append {ts' : List Token} {cs : List Char} (h : Spaced ts' cs) (hrest : Spaced ts rest) :
    Spaced (ts' ++ ts) (cs ++ rest) := by
  induction h with
  | nil hblanks => exact hrest.blanks hblanks
  | cons hblanks ht _ ih =>
      rw [List.append_assoc, List.append_assoc]
      exact .cons hblanks ht ih

end Spaced

theorem endsNumber_blanks_append {blanks rest : List Char} (h : ∀ c ∈ blanks, isBlank c = true)
    (hrest : EndsNumber rest) : EndsNumber (blanks ++ rest) := by
  cases blanks with
  | nil => exact hrest
  | cons c cs =>
      apply endsNumber_cons
      have hc : isBlank c = true := h c (by simp)
      simp only [isBlank, Bool.or_eq_true, beq_iff_eq, or_assoc] at hc
      rcases hc with rfl | rfl | rfl | rfl <;> decide

namespace Token

/-! ### Scanning step by step -/

theorem scan_of_next?_none {cs : List Char} (h : next? cs = none) : scan cs = [] := by
  rw [scan]
  split
  · rfl
  · rename_i h'
    rw [h] at h'
    cases h'

theorem scan_of_next?_some {cs rest : List Char} {t : Token} (h : next? cs = some (t, rest)) :
    scan cs = t :: scan rest := by
  rw [scan]
  split
  · rename_i h'
    rw [h] at h'
    cases h'
  · rename_i h'
    rw [h] at h'
    obtain ⟨rfl, rfl⟩ := Prod.mk.inj (Option.some.inj h')
    rfl

/-- Texts with the same first token and the same text after it have the same tokens. -/
theorem scan_congr {cs ds : List Char} (h : next? cs = next? ds) : scan cs = scan ds := by
  cases hds : next? ds with
  | none => rw [scan_of_next?_none hds, scan_of_next?_none (h.trans hds)]
  | some p => rw [scan_of_next?_some hds, scan_of_next?_some (h.trans hds)]

theorem scan_nil : scan [] = [] := scan_of_next?_none rfl

theorem scan_blanks_append {blanks : List Char} (h : ∀ c ∈ blanks, isBlank c = true)
    (cs : List Char) : scan (blanks ++ cs) = scan cs := by
  apply scan_congr
  rw [next?, next?, List.dropWhile_append_of_pos h]

/-! ### Scanning what is spelled of tokens -/

/-- Tokens are scanned as they are spelled. -/
theorem next?_of_spells {t : Token} {cs rest : List Char} (h : t.Spells cs)
    (hrest : t.isNumber = true → EndsNumber rest) : next? (cs ++ rest) = some (t, rest) := by
  cases t with
  | number n => exact next?_spelled h (hrest rfl)
  | text q =>
      obtain ⟨pieces, fault⟩ := q
      obtain ⟨rfl, body, hbody, rfl⟩ := h
      have hscan := Quotation.scan_spelled hbody rest
      refine next?_of_start rfl ?_
      show ((Token.text _, _) : Token × List Char) = _
      have htext : (body.append ['"']).append rest = body ++ '"' :: rest :=
        List.append_assoc body ['"'] rest
      rw [htext, hscan]
  | flag value => cases value <;> cases h <;> rfl
  | broken f | brokenNumber f => exact nomatch h
  | _ =>
      cases h
      rfl

theorem endsNumber_of_spells {t : Token} {cs : List Char} (h : t.Spells cs)
    (ht : t.isNumber = false) (rest : List Char) : EndsNumber (cs ++ rest) := by
  cases t with
  | number n => exact nomatch ht
  | text q =>
      obtain ⟨-, body, -, rfl⟩ := h
      exact endsNumber_cons (by decide)
  | flag value => cases value <;> cases h <;> exact endsNumber_cons (by decide)
  | broken f | brokenNumber f => exact nomatch h
  | _ =>
      cases h
      exact endsNumber_cons (by decide)

/-- What follows a number does not go on with it, if no two numbers meet. -/
theorem endsNumber_of_spaced {t : Token} {ts : List Token} {rest : List Char}
    (h : Spaced ts rest)
    (hnumbers : (t :: ts).IsChain fun t t' => t.isNumber = true → t'.isNumber = false)
    (ht : t.isNumber = true) : EndsNumber rest := by
  cases h with
  | nil hblanks =>
      have hend := endsNumber_blanks_append hblanks endsNumber_nil
      rwa [List.append_nil] at hend
  | cons hblanks ht' _ =>
      have hnext := (List.isChain_cons_cons.mp hnumbers).1 ht
      exact endsNumber_blanks_append hblanks (endsNumber_of_spells ht' hnext _)

/-- **The scanner finds the tokens that a text is spelled of**, if no two numbers meet. -/
theorem scan_of_spaced {ts : List Token} {cs : List Char} (h : Spaced ts cs)
    (hnumbers : ts.IsChain fun t t' => t.isNumber = true → t'.isNumber = false) :
    scan cs = ts := by
  induction h with
  | @nil blanks hblanks =>
      rw [← List.append_nil blanks, scan_blanks_append hblanks, scan_nil]
  | @cons t ts blanks cs rest hblanks ht hts ih =>
      rw [scan_blanks_append hblanks,
        scan_of_next?_some (next?_of_spells ht (endsNumber_of_spaced hts hnumbers)),
        ih hnumbers.of_cons]

/-! ### Spelling what is scanned -/

/-- Whether a token shows no fault. -/
def sound : Token → Bool
  | .broken _ | .brokenNumber _ => false
  | .text q => q.fault.isNone
  | _ => true

theorem spells_of_word {meaning t : Token} {letters cs rest : List Char}
    (h : word meaning letters cs = (t, rest)) (ht : t.sound = true) :
    t = meaning ∧ cs = letters ++ rest := by
  induction letters generalizing cs with
  | nil =>
      obtain ⟨rfl, rfl⟩ := Prod.mk.inj h
      exact ⟨rfl, rfl⟩
  | cons letter letters ih =>
      cases cs with
      | nil =>
          obtain ⟨rfl, -⟩ := Prod.mk.inj h
          exact nomatch ht
      | cons c cs =>
          rw [word] at h
          split at h
          · rename_i hc
            obtain ⟨rfl, rfl⟩ := ih h
            exact ⟨rfl, congrArg (· :: _) hc⟩
          · obtain ⟨rfl, -⟩ := Prod.mk.inj h
            exact nomatch ht

theorem spells_of_exponent {n : Numeral} {t : Token} {cs rest : List Char}
    (h : exponent n cs = (t, rest)) (ht : t.sound = true) :
    ∃ (e : Exponent) (sign : List Char), SpellsSign e.negative sign ∧ e.digits ≠ [] ∧
      (∀ c ∈ e.digits, c.isDigit = true) ∧ t = .number { n with exponent := some e } ∧
        cs = sign ++ (e.digits ++ rest) := by
  unfold exponent at h
  split at h
  rename_i negative cs' hsplit
  have hsign : ∃ sign, SpellsSign negative sign ∧ cs = sign ++ cs' := by
    split at hsplit
    · obtain ⟨rfl, rfl⟩ := Prod.mk.inj hsplit
      exact ⟨['+'], .plus, rfl⟩
    · obtain ⟨rfl, rfl⟩ := Prod.mk.inj hsplit
      exact ⟨['-'], .minus, rfl⟩
    · obtain ⟨rfl, rfl⟩ := Prod.mk.inj hsplit
      exact ⟨[], .absent, rfl⟩
  obtain ⟨sign, hsign, rfl⟩ := hsign
  dsimp only at h
  split at h
  · obtain ⟨rfl, -⟩ := Prod.mk.inj h
    exact nomatch ht
  · rename_i hempty
    obtain ⟨rfl, rfl⟩ := Prod.mk.inj h
    refine ⟨⟨negative, cs'.takeWhile Char.isDigit⟩, sign, hsign, ?_, ?_, rfl, ?_⟩
    · exact fun hnil => hempty (List.isEmpty_iff.mpr hnil)
    · exact fun c hc => List.mem_takeWhile_imp hc
    · rw [List.takeWhile_append_dropWhile]

theorem spells_of_exponent? {n : Numeral} (hn : n.exponent = none) {t : Token}
    {cs rest : List Char} (h : exponent? n cs = (t, rest)) (ht : t.sound = true) :
    ∃ exp es, SpellsExponent exp es ∧
      (∀ e, exp = some e → e.digits ≠ [] ∧ ∀ c ∈ e.digits, c.isDigit = true) ∧
        t = .number { n with exponent := exp } ∧ cs = es ++ rest := by
  have habsent : (Token.number n, cs) = (t, rest) → ∃ exp es, SpellsExponent exp es ∧
      (∀ e, exp = some e → e.digits ≠ [] ∧ ∀ c ∈ e.digits, c.isDigit = true) ∧
        t = .number { n with exponent := exp } ∧ cs = es ++ rest := by
    intro h
    obtain ⟨rfl, rfl⟩ := Prod.mk.inj h
    exact ⟨none, [], .absent, fun e he => (nomatch he), by rw [← hn], rfl⟩
  cases cs with
  | nil => exact habsent h
  | cons c cs =>
      rw [exponent?] at h
      split at h
      · rename_i hmark
        obtain ⟨e, sign, hsign, hne, hdigits, rfl, rfl⟩ := spells_of_exponent h ht
        refine ⟨some e, c :: (sign ++ e.digits), .present hmark hsign, ?_, rfl, ?_⟩
        · rintro e' he
          obtain rfl := Option.some.inj he
          exact ⟨hne, hdigits⟩
        · rw [List.cons_append, List.append_assoc]
      · exact habsent h

theorem spells_of_fraction? {negative : Bool} {whole : List Char} {t : Token}
    {cs rest : List Char} (h : fraction? ⟨negative, whole, [], none⟩ cs = (t, rest))
    (ht : t.sound = true) :
    ∃ ds exp es, (∀ c ∈ ds, c.isDigit = true) ∧ SpellsExponent exp es ∧
      (∀ e, exp = some e → e.digits ≠ [] ∧ ∀ c ∈ e.digits, c.isDigit = true) ∧
        t = .number ⟨negative, whole, ds, exp⟩ ∧ cs = spellFraction ds ++ (es ++ rest) := by
  have habsent : exponent? ⟨negative, whole, [], none⟩ cs = (t, rest) →
      ∃ ds exp es, (∀ c ∈ ds, c.isDigit = true) ∧ SpellsExponent exp es ∧
        (∀ e, exp = some e → e.digits ≠ [] ∧ ∀ c ∈ e.digits, c.isDigit = true) ∧
          t = .number ⟨negative, whole, ds, exp⟩ ∧ cs = spellFraction ds ++ (es ++ rest) := by
    intro h
    obtain ⟨exp, es, hes, hexp, rfl, rfl⟩ := spells_of_exponent? rfl h ht
    exact ⟨[], exp, es, List.forall_mem_nil _, hes, hexp, rfl, rfl⟩
  cases cs with
  | nil => exact habsent h
  | cons c cs =>
      rw [fraction?] at h
      split at h
      · rename_i hpoint
        subst hpoint
        dsimp only at h
        split at h
        · obtain ⟨rfl, -⟩ := Prod.mk.inj h
          exact nomatch ht
        · rename_i hempty
          obtain ⟨exp, es, hes, hexp, rfl, hrest⟩ := spells_of_exponent? rfl h ht
          refine ⟨_, exp, es, fun c hc => List.mem_takeWhile_imp hc, hes, hexp, rfl, ?_⟩
          rw [← hrest]
          cases hdigits : cs.takeWhile Char.isDigit with
          | nil => exact absurd (List.isEmpty_iff.mpr hdigits) hempty
          | cons d ds =>
              show '.' :: cs = '.' :: (d :: ds ++ cs.dropWhile Char.isDigit)
              rw [← hdigits, List.takeWhile_append_dropWhile]
      · exact habsent h

theorem spells_of_afterSign {negative : Bool} {t : Token} {cs rest : List Char}
    (h : afterSign negative cs = (t, rest)) (ht : t.sound = true) :
    ∃ n ds, t = .number n ∧ n.negative = negative ∧ n.SpellsUnsigned ds ∧ cs = ds ++ rest := by
  rw [afterSign] at h
  split at h
  · obtain ⟨rfl, -⟩ := Prod.mk.inj h
    exact nomatch ht
  rename_i hempty
  split at h
  · obtain ⟨rfl, -⟩ := Prod.mk.inj h
    exact nomatch ht
  rename_i hlead
  obtain ⟨ds, exp, es, hds, hes, hexp, rfl, hrest⟩ := spells_of_fraction? h ht
  refine ⟨_, _, rfl, rfl, ⟨⟨?_, ?_, ?_, hds, hexp⟩, es, hes, rfl⟩, ?_⟩
  · exact fun c hc => List.mem_takeWhile_imp hc
  · exact fun hnil => hempty (List.isEmpty_iff.mpr hnil)
  · intro hzero
    have hpos : (cs.takeWhile Char.isDigit).length ≠ 0 := fun hnil =>
      hempty (List.isEmpty_iff.mpr (List.length_eq_zero_iff.mp hnil))
    have hshort : ¬ 1 < (cs.takeWhile Char.isDigit).length := fun hlong => hlead ⟨hzero, hlong⟩
    show (cs.takeWhile Char.isDigit).length = 1
    omega
  · rw [List.append_assoc, List.append_assoc, ← hrest, List.takeWhile_append_dropWhile]

end Token

/-- A text that is the pieces of a string up to its closing quote, and what follows that. -/
def SpellsQuotation (scanned : Quotation × List Char) (cs : List Char) : Prop :=
  ∃ body, SpellsPieces scanned.1.pieces body ∧ cs = body ++ '"' :: scanned.2

theorem SpellsQuotation.after {p : Piece} {scanned : Quotation × List Char} {ds cs : List Char}
    (hp : SpellsPiece p ds) (h : SpellsQuotation scanned cs) :
    SpellsQuotation (Quotation.after p scanned) (ds ++ cs) := by
  obtain ⟨body, hbody, rfl⟩ := h
  exact ⟨ds ++ body, .cons hp hbody, (List.append_assoc ..).symm⟩

/-- A string that is scanned to its closing quote is spelled of its pieces. -/
theorem spellsQuotation_of_scan {cs : List Char} (h : (Quotation.scan cs).1.fault = none) :
    SpellsQuotation (Quotation.scan cs) cs := by
  fun_induction Quotation.scan cs with
  | case1 | case3 | case5 | case6 | case8 | case9 => cases h
  | case2 cs => exact ⟨[], .nil, rfl⟩
  | case4 h₁ h₂ h₃ h₄ tail n hn _ ih => exact (ih h).after (.unit hn)
  | case7 letter tail hu meant hmeant _ ih => exact (ih h).after (.letter hu hmeant)
  | case10 c tail hquote hslash hcontrol ih => exact (ih h).after (.raw hquote hslash hcontrol)

namespace Token

theorem spells_of_mark? {c : Char} {t : Token} (h : mark? c = some t) : t.Spells [c] := by
  rw [mark?] at h
  split_ifs at h with hc hc hc hc hc hc
  all_goals
    obtain rfl := Option.some.inj h
    rw [hc]
    rfl

/-- A token that is scanned without a fault is one of its spellings. -/
theorem spells_of_start {c : Char} {cs rest : List Char} {t : Token}
    (h : start c cs = (t, rest)) (ht : t.sound = true) :
    ∃ ds, t.Spells ds ∧ c :: cs = ds ++ rest := by
  rw [start] at h
  split at h
  · rename_i mark hmark
    obtain ⟨rfl, rfl⟩ := Prod.mk.inj h
    exact ⟨[c], spells_of_mark? hmark, rfl⟩
  rw [startScalar] at h
  split at h
  · rename_i hquote
    obtain ⟨rfl, rfl⟩ := Prod.mk.inj h
    have hfault := Option.isNone_iff_eq_none.mp ht
    obtain ⟨body, hbody, hcs⟩ := spellsQuotation_of_scan hfault
    refine ⟨'"' :: body ++ ['"'], ⟨hfault, body, hbody, rfl⟩, ?_⟩
    rw [List.append_assoc, hquote]
    exact congrArg ('"' :: ·) hcs
  split at h
  · rename_i hc
    obtain ⟨rfl, rfl⟩ := spells_of_word h ht
    exact ⟨_, rfl, congrArg (· :: _) hc⟩
  split at h
  · rename_i hc
    obtain ⟨rfl, rfl⟩ := spells_of_word h ht
    exact ⟨_, rfl, congrArg (· :: _) hc⟩
  split at h
  · rename_i hc
    obtain ⟨rfl, rfl⟩ := spells_of_word h ht
    exact ⟨_, rfl, congrArg (· :: _) hc⟩
  split at h
  · rename_i hc
    obtain ⟨n, ds, rfl, hnegative, hds, rfl⟩ := spells_of_afterSign h ht
    refine ⟨'-' :: ds, ⟨ds, hds, ?_⟩, congrArg (· :: _) hc⟩
    rw [hnegative]
    rfl
  split at h
  · obtain ⟨n, ds, rfl, hnegative, hds, hcs⟩ := spells_of_afterSign h ht
    refine ⟨ds, ⟨ds, hds, ?_⟩, hcs⟩
    rw [hnegative]
    rfl
  · obtain ⟨rfl, -⟩ := Prod.mk.inj h
    exact nomatch ht

theorem eq_blanks_of_next?_none {cs : List Char} (h : next? cs = none) :
    ∀ c ∈ cs, isBlank c = true := by
  rw [next?] at h
  split at h
  · rename_i hnil
    exact List.dropWhile_eq_nil_iff.mp hnil
  · exact nomatch h

theorem spells_of_next? {cs rest : List Char} {t : Token} (h : next? cs = some (t, rest))
    (ht : t.sound = true) : ∃ blanks ds, (∀ c ∈ blanks, isBlank c = true) ∧ t.Spells ds ∧
      cs = blanks ++ (ds ++ rest) := by
  rw [next?] at h
  split at h
  · exact nomatch h
  · rename_i c tail htail
    obtain ⟨ds, hds, htext⟩ := spells_of_start (Option.some.inj h) ht
    refine ⟨cs.takeWhile isBlank, ds, fun c hc => List.mem_takeWhile_imp hc, hds, ?_⟩
    rw [← htext, ← htail, List.takeWhile_append_dropWhile]

/-- **What is scanned without a fault is spelled of its tokens.** -/
theorem spaced_of_scan {cs : List Char} (h : ∀ t ∈ scan cs, t.sound = true) :
    Spaced (scan cs) cs := by
  fun_induction scan cs with
  | case1 cs hnone => exact .nil (eq_blanks_of_next?_none hnone)
  | case2 cs t rest hnext ih =>
      obtain ⟨ht, hts⟩ := List.forall_mem_cons.mp h
      obtain ⟨blanks, ds, hblanks, hds, rfl⟩ := spells_of_next? hnext ht
      exact .cons hblanks hds (ih hts)

end Token

end CaskLint.Json
