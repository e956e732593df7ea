import CaskLint.Json.Sketch
import CaskLint.Json.Writer
import CaskLint.Proofs.Json.Spelling

/-!
# Written numbers are spelled digit by digit

  A number is written as digits, and these are the text of a numeral:

* **`Numeral.spell`** — the text of a numeral, one of the ways to spell it (`spells_spell`).
* **`writeInteger_eq_spell`**, **`write?_eq_spell`** — what the writer makes of integers and of
  finite floating-point numbers is the text of a proper numeral.

  That the shortest digits of a number have no zero in front is the only fact about them that
  is needed here (`Scientific.Leading`); whether they are read back as the same number is
  another question, which `Binary64.readsBack` puts to the reader.
-/

namespace CaskLint.Json

/-! ## The text of a numeral -/

/-- The text of an exponent if there is one, always with its sign. -/
def spellExponent : Option Exponent → List Char
  | none => []
  | some e => 'e' :: (if e.negative then '-' else '+') :: e.digits

namespace Numeral

/-- The text of the fraction and the exponent. -/
def tail (n : Numeral) : List Char := spellFraction n.fraction ++ spellExponent n.exponent

/-- The text of a numeral. -/
def spell (n : Numeral) : List Char :=
  (if n.negative then ['-'] else []) ++ (n.whole ++ n.tail)

/-- The text of a numeral is one of its spellings. -/
theorem spells_spell {n : Numeral} (hn : n.Proper) : n.Spells n.spell := by
  refine ⟨_, ⟨hn, spellExponent n.exponent, ?_, rfl⟩, rfl⟩
  cases n.exponent with
  | none => exact .absent
  | some e =>
      have hsign : SpellsSign e.negative [if e.negative then '-' else '+'] := by
        cases e.negative with
        | true => exact .minus
        | false => exact .plus
      exact .present (Or.inl rfl) hsign

end Numeral

/-! ## Written integers -/

theorem isDigit_toDigits {n : Nat} : ∀ c ∈ Nat.toDigits 10 n, c.isDigit = true :=
  fun _ hc => Nat.isDigit_of_mem_toDigits (by omega) (by omega) hc

/-- The digits of a number begin with a zero only when the number is zero. -/
theorem head?_toDigits_ne_zero {n : Nat} (hn : n ≠ 0) : (Nat.toDigits 10 n).head? ≠ some '0' := by
  induction n using Nat.strongRecOn with
  | ind n ih =>
      rw [Nat.toDigits_eq_if (by omega)]
      by_cases hlt : n < 10
      · rw [if_pos hlt]
        simpa using hn
      · -- the first digit is that of the quotient, which is not zero either
        rw [if_neg hlt, List.head?_append]
        have hquot := ih (n / 10) (by omega) (by omega)
        cases hh : (Nat.toDigits 10 (n / 10)).head? with
        | none => exact absurd (List.head?_eq_none_iff.mp hh) Nat.toDigits_ne_nil
        | some c => rwa [hh] at hquot

/-- The numeral of an integer: a sign if it is negative, and its digits. -/
def Numeral.ofInt (i : Int) : Numeral := ⟨i < 0, Nat.toDigits 10 i.natAbs, [], none⟩

theorem Numeral.proper_ofInt (i : Int) : (ofInt i).Proper where
  whole_digits := isDigit_toDigits
  whole_ne_nil := Nat.toDigits_ne_nil
  leading := by
    intro hzero
    have hi : i.natAbs = 0 := by
      apply Classical.byContradiction
      exact fun hne => head?_toDigits_ne_zero hne hzero
    rw [ofInt, hi]
    rfl
  fraction_digits := fun _ h => nomatch h
  exponent_digits := fun _ h => nomatch h

theorem writeInteger_eq_spell (i : Int) : writeInteger i = (Numeral.ofInt i).spell := by
  cases i with
  | ofNat n =>
      have hneg : decide (Int.ofNat n < 0) = false := decide_eq_false (by simp)
      rw [Numeral.ofInt, hneg]
      exact (List.append_nil _).symm
  | negSucc n =>
      have hneg : decide (Int.negSucc n < 0) = true := decide_eq_true (Int.negSucc_lt_zero n)
      rw [Numeral.ofInt, hneg]
      exact congrArg ('-' :: ·) (List.append_nil _).symm

/-- An integer of 64 bits is read back as itself. -/
theorem Numeral.integer?_ofInt {i : Int} (hlow : -9223372036854775808 ≤ i)
    (hhigh : i < 18446744073709551616) : (ofInt i).integer? = some i := by
  have hdigits : Nat.ofDigitChars 10 (ofInt i).whole 0 = i.natAbs := Nat.ofDigitChars_ten_toDigits
  have hplain : ((ofInt i).fraction.isEmpty && (ofInt i).exponent.isNone) = true := rfl
  rw [integer?, hdigits, if_pos hplain]
  by_cases hneg : i < 0
  · have hsign : (ofInt i).negative = true := decide_eq_true hneg
    have hrange : 0 < i.natAbs ∧ i.natAbs ≤ 9223372036854775808 := by omega
    simp only [hsign, if_true, hrange]
    exact congrArg some (by omega)
  · have hsign : (ofInt i).negative = false := decide_eq_false hneg
    have hrange : i.natAbs < 18446744073709551616 := by omega
    simp only [hsign, Bool.false_eq_true, if_false, hrange, if_true]
    exact congrArg some (by omega)

/-! ## Written floating-point numbers -/

/-- Digits that may stand at the head of a number: a zero leads only the number zero. -/
structure Leading (s : Scientific) : Prop where
  digits : ∀ c ∈ s.digits, c.isDigit = true
  ne_nil : s.digits ≠ []
  zero : s.digits.head? = some '0' → s = ⟨['0'], 0⟩

theorem isDigit_zero : ∀ c ∈ ['0'], c.isDigit = true := by
  intro c hc
  rw [List.mem_singleton.mp hc]
  rfl

theorem leading_zero : Leading ⟨['0'], 0⟩ := ⟨isDigit_zero, by decide, fun _ => rfl⟩

/-- Dropping the zeros at the end leaves the first digit of a number alone. -/
theorem leading_scientific {n : Nat} (hn : n ≠ 0) (q : Int) :
    Leading (Magnitude.scientific n q) := by
  have hsub : ∀ c ∈ (Magnitude.scientific n q).digits, c ∈ Nat.toDigits 10 n := by
    intro c hc
    have := (List.dropWhile_suffix (· == '0')).mem (List.mem_reverse.mp hc)
    exact List.mem_reverse.mp this
  have hhead : (Magnitude.scientific n q).digits.head? = (Nat.toDigits 10 n).head? := by
    cases hd : Nat.toDigits 10 n with
    | nil => exact absurd hd Nat.toDigits_ne_nil
    | cons c cs =>
        have hc : c ≠ '0' := by
          intro hc
          exact head?_toDigits_ne_zero hn (by rw [hd, hc]; rfl)
        rw [Magnitude.scientific, hd]
        dsimp only
        rw [List.reverse_cons, List.dropWhile_append]
        split
        · -- all other digits are zeros and the first one stops the dropping
          rw [List.dropWhile_cons_of_neg (by simpa using hc)]
          rfl
        · rw [List.reverse_append]
          rfl
  refine ⟨fun c hc => isDigit_toDigits c (hsub c hc), ?_, ?_⟩
  · intro hnil
    rw [hnil] at hhead
    exact Nat.toDigits_ne_nil (List.head?_eq_none_iff.mp hhead.symm)
  · intro hzero
    exact absurd (hhead.symm.trans hzero) (head?_toDigits_ne_zero hn)

/-- Only zero is nearest to zero. -/
theorem units_eq_zero_of_nearest? {m : Magnitude} {den : Nat} (hden : 0 < den)
    (h : Magnitude.nearest? 0 den = some m) : m.units = 0 := by
  have hround : ∀ d, 0 < d → roundDiv .toEven 0 d = 0 := by
    intro d hd
    simp [roundDiv, hd]
  rw [Magnitude.nearest?] at h
  split at h
  · obtain rfl := Option.some.inj h
    have hpow : 0 < Nat.pow 2 (gridExponent (0 / den)) := Nat.two_pow_pos _
    dsimp only
    rw [hround _ (Nat.mul_pos hden hpow), Nat.zero_mul]
  · exact nomatch h

theorem units_eq_zero_of_ofDecimal? {m : Magnitude} {q : Int}
    (h : Magnitude.ofDecimal? 0 q = some m) : m.units = 0 := by
  rw [Magnitude.ofDecimal?] at h
  generalize Nat.pow 2 1074 = unit at h
  rw [Nat.zero_mul, Nat.zero_mul] at h
  exact units_eq_zero_of_nearest? (Nat.pow_pos (by omega)) h

theorem ofDecimal?_of_onGrid? {tie : Tie} {m : Magnitude} {q : Int} {n : Nat}
    (h : m.onGrid? tie q = some n) : Magnitude.ofDecimal? n q = some m := by
  have hpick : ∀ near far : Nat,
      (if Magnitude.ofDecimal? near q = some m then some near
        else if Magnitude.ofDecimal? far q = some m then some far else none) = some n →
      Magnitude.ofDecimal? n q = some m := by
    intro near far hn
    split at hn
    · rename_i hnear
      obtain rfl := Option.some.inj hn
      exact hnear
    · split at hn
      · rename_i hfar
        obtain rfl := Option.some.inj hn
        exact hfar
      · exact nomatch hn
  exact hpick _ _ h

/-- The shortest digits of a number have no zero in front. -/
theorem leading_shortest {m : Magnitude} (hm : m.isZero = false) (tie : Tie) :
    Leading (m.shortest tie) := by
  unfold Magnitude.shortest
  dsimp only
  generalize hf : (List.range 17).findSome? _ = found
  cases found with
  | none => exact leading_zero
  | some s =>
      -- digits that read back as a number other than zero are not those of zero
      obtain ⟨more, -, hs⟩ := List.exists_of_findSome?_eq_some hf
      obtain ⟨n, hgrid, rfl⟩ := Option.map_eq_some_iff.mp hs
      apply leading_scientific
      rintro rfl
      have := units_eq_zero_of_ofDecimal? (ofDecimal?_of_onGrid? hgrid)
      rw [Magnitude.isZero, this] at hm
      exact nomatch hm

/-- The numeral of a number that is written without an exponent. -/
def Numeral.positional (negative : Bool) (s : Scientific) : Numeral :=
  match s.exponent with
  | .ofNat e =>
    let whole := s.digits.take (e + 1)
    let fraction := s.digits.drop (e + 1)
    ⟨negative, whole ++ List.replicate (e + 1 - whole.length) '0',
      if fraction.isEmpty then ['0'] else fraction, none⟩
  | .negSucc zeros => ⟨negative, ['0'], List.replicate zeros '0' ++ s.digits, none⟩

/-- The numeral of a number that is written with an exponent. -/
def Numeral.exponential (negative : Bool) (s : Scientific) : Numeral :=
  ⟨negative, s.digits.take 1, s.digits.drop 1,
    some ⟨s.exponent < 0, Nat.toDigits 10 s.exponent.natAbs⟩⟩

/-- The numeral of these digits in a format. -/
def Numeral.ofScientific (style : FloatStyle) (negative : Bool) (s : Scientific) : Numeral :=
  if style.positional s.exponent then positional negative s else exponential negative s

/-- The digits that a magnitude is written with. -/
def decimal (tie : Tie) (m : Magnitude) : Scientific :=
  if m.isZero then ⟨['0'], 0⟩ else m.shortest tie

/-- The numeral that a magnitude is written as. -/
def Numeral.ofMagnitude (style : FloatStyle) (negative : Bool) (m : Magnitude) : Numeral :=
  ofScientific style negative (decimal style.tie m)

theorem leading_decimal (tie : Tie) (m : Magnitude) : Leading (decimal tie m) := by
  rw [decimal]
  cases hm : m.isZero with
  | true => exact leading_zero
  | false => exact leading_shortest hm tie

theorem isDigit_append {as bs : List Char} (has : ∀ c ∈ as, c.isDigit = true)
    (hbs : ∀ c ∈ bs, c.isDigit = true) : ∀ c ∈ as ++ bs, c.isDigit = true := by
  intro c hc
  rcases List.mem_append.mp hc with h | h
  · exact has c h
  · exact hbs c h

theorem isDigit_replicate_zero (n : Nat) : ∀ c ∈ List.replicate n '0', c.isDigit = true := by
  intro c hc
  rw [List.eq_of_mem_replicate hc]
  rfl

theorem Numeral.proper_positional (negative : Bool) {s : Scientific} (hs : Leading s) :
    (positional negative s).Proper := by
  obtain ⟨digits, exponent⟩ := s
  obtain ⟨hdigits, hne, hzero⟩ := hs
  cases exponent with
  | negSucc zeros =>
      exact ⟨isDigit_replicate_zero 1, List.cons_ne_nil _ _, fun _ => rfl,
        isDigit_append (isDigit_replicate_zero zeros) hdigits, fun _ h => nomatch h⟩
  | ofNat e =>
      obtain ⟨d, ds, rfl⟩ := List.exists_cons_of_ne_nil hne
      have htake : ∀ c ∈ (d :: ds).take (e + 1), c.isDigit = true :=
        fun c hc => hdigits c (List.mem_of_mem_take hc)
      have hdrop : ∀ c ∈ (d :: ds).drop (e + 1), c.isDigit = true :=
        fun c hc => hdigits c (List.mem_of_mem_drop hc)
      refine ⟨isDigit_append htake (isDigit_replicate_zero _), by simp [positional], ?_, ?_,
        fun _ h => nomatch h⟩
      · -- a zero in front means that the number is zero, with nothing to fill up
        intro h
        obtain ⟨⟨rfl, rfl⟩, he⟩ : (d = '0' ∧ ds = []) ∧ Int.ofNat e = 0 := by
          simpa [positional] using hzero (by simpa [positional] using h)
        obtain rfl := Int.ofNat.inj he
        rfl
      · show ∀ c ∈ (if ((d :: ds).drop (e + 1)).isEmpty then ['0'] else (d :: ds).drop (e + 1)),
          c.isDigit = true
        split
        · exact isDigit_zero
        · exact hdrop

theorem Numeral.proper_exponential (negative : Bool) {s : Scientific} (hs : Leading s) :
    (exponential negative s).Proper := by
  obtain ⟨digits, exponent⟩ := s
  obtain ⟨hdigits, hne, -⟩ := hs
  obtain ⟨d, ds, rfl⟩ := List.exists_cons_of_ne_nil hne
  refine ⟨fun c hc => hdigits c (List.mem_of_mem_take hc), by simp [exponential],
    fun _ => rfl, fun c hc => hdigits c (List.mem_of_mem_drop hc), ?_⟩
  intro e he
  obtain rfl := Option.some.inj he
  exact ⟨Nat.toDigits_ne_nil, isDigit_toDigits⟩

theorem Numeral.proper_ofMagnitude (style : FloatStyle) (negative : Bool) (m : Magnitude) :
    (ofMagnitude style negative m).Proper := by
  have hs := leading_decimal style.tie m
  rw [ofMagnitude, ofScientific]
  split
  · exact proper_positional negative hs
  · exact proper_exponential negative hs

theorem Numeral.negative_positional (negative : Bool) (s : Scientific) :
    (positional negative s).negative = negative := by
  rw [positional]
  split <;> rfl

theorem spellFraction_of_ne_nil {ds : List Char} (h : ds ≠ []) :
    spellFraction ds = '.' :: ds := by
  cases ds with
  | nil => exact absurd rfl h
  | cons d ds => rfl

theorem spell_positional (negative : Bool) {s : Scientific} (hs : Leading s) :
    (Numeral.positional negative s).spell =
      (if negative then '-' :: s.positional else s.positional) := by
  have htext : (Numeral.positional negative s).whole ++ (Numeral.positional negative s).tail =
      s.positional := by
    obtain ⟨digits, exponent⟩ := s
    cases exponent with
    | ofNat e =>
        have hfraction : (if (digits.drop (e + 1)).isEmpty then ['0'] else digits.drop (e + 1)) ≠
            [] := by
          split
          · exact List.cons_ne_nil _ _
          · rename_i h
            exact fun hnil => h (by rw [hnil]; rfl)
        rw [Numeral.tail, Numeral.positional]
        dsimp only
        rw [spellFraction_of_ne_nil hfraction, spellExponent, List.append_nil,
          Scientific.positional]
    | negSucc zeros =>
        have hfraction : List.replicate zeros '0' ++ digits ≠ [] := by
          simpa using fun _ => hs.ne_nil
        rw [Numeral.tail, Numeral.positional]
        dsimp only
        rw [spellFraction_of_ne_nil hfraction, spellExponent, List.append_nil,
          Scientific.positional]
        rfl
  rw [Numeral.spell, htext, Numeral.negative_positional]
  cases negative <;> rfl

theorem spell_exponential (negative : Bool) {s : Scientific} (hs : Leading s) :
    (Numeral.exponential negative s).spell =
      (if negative then '-' :: s.exponential else s.exponential) := by
  have htext : (Numeral.exponential negative s).whole ++ (Numeral.exponential negative s).tail =
      s.exponential := by
    obtain ⟨digits, exponent⟩ := s
    obtain ⟨d, ds, rfl⟩ := List.exists_cons_of_ne_nil hs.ne_nil
    rw [Numeral.tail, Numeral.exponential, Scientific.exponential]
    by_cases hneg : exponent < 0
    · cases ds <;> simp [spellFraction, spellExponent, hneg]
    · cases ds <;> simp [spellFraction, spellExponent, hneg]
  rw [Numeral.spell, htext]
  cases negative <;> rfl

/-- **A finite number is written as the text of a proper numeral.** -/
theorem write?_eq_spell (style : FloatStyle) (negative : Bool) (m : Magnitude) :
    style.write? (.finite negative m) = some (Numeral.ofMagnitude style negative m).spell := by
  have hs := leading_decimal style.tie m
  have hmagnitude : style.magnitude m =
      if style.positional (decimal style.tie m).exponent then (decimal style.tie m).positional
      else (decimal style.tie m).exponential := rfl
  rw [FloatStyle.write?, hmagnitude, Numeral.ofMagnitude, Numeral.ofScientific]
  cases style.positional (decimal style.tie m).exponent with
  | true => rw [if_pos rfl, if_pos rfl, spell_positional negative hs]
  | false =>
      rw [if_neg Bool.false_ne_true, if_neg Bool.false_ne_true, spell_exponential negative hs]

/-- The numeral of a floating-point number has a fraction or an exponent, so it is no integer. -/
theorem Numeral.integer?_ofMagnitude (style : FloatStyle) (negative : Bool) (m : Magnitude) :
    (ofMagnitude style negative m).integer? = none := by
  obtain ⟨hdigits, hne, -⟩ := leading_decimal style.tie m
  have hneither : ((ofMagnitude style negative m).fraction.isEmpty &&
      (ofMagnitude style negative m).exponent.isNone) = false := by
    rw [ofMagnitude, ofScientific]
    split
    · -- without an exponent there is at least one digit after the point
      rw [positional]
      split
      · dsimp only
        split
        · rfl
        · rename_i h
          simp [h]
      · simp [hne]
    · exact Bool.and_false _
  rw [integer?, hneither]
  rfl

end CaskLint.Json
