import CaskLint.Document.Literal
import CaskLint.Proofs.Json.Values

/-!
# What a value that was read is like

  Whatever a text is like, a value that is read from it has two bounds:

* it nests no deeper than the text does, nor than the reader allows, and
* all its numbers are finite, whether they are kept as integers or not
  (**`Json.numbersFinite`**), because an integer that is read has at most 64 bits and a number
  that is too large to be finite is out of range.

  The induction (`bounds_of_value`) is over the sketch, with one more array or object open at
  each level.
-/

namespace CaskLint

/-! ## Integers of at most 64 bits -/

theorem mul_pow_lt {m a b c : Nat} (hm : m ≤ Nat.pow 2 a) (hc : a + b < c) :
    m * Nat.pow 2 b < Nat.pow 2 c := by
  have hle : m * Nat.pow 2 b ≤ Nat.pow 2 (a + b) := by
    rw [← pow_mul_pow]
    exact Nat.mul_le_mul_right _ hm
  exact Nat.lt_of_le_of_lt hle (Nat.pow_lt_pow_right Nat.one_lt_two hc)

theorem log2_lt_of_lt_pow {m k : Nat} (h : m < Nat.pow 2 k) (hk : 0 < k) : m.log2 < k := by
  by_cases h0 : m = 0
  · rw [h0, Nat.log2_zero]
    exact hk
  · exact (Nat.log2_lt h0).mpr h

/-- Up to 2^64 there is a nearest floating-point number. -/
theorem Magnitude.ofNat?_isSome {n : Nat} (h : n ≤ Nat.pow 2 64) :
    (Magnitude.ofNat? n).isSome = true := by
  have hgrids : ∀ b k, 64 + b < 53 + k → gridExponent (n * Nat.pow 2 b / 1) ≤ k := by
    intro b k hk
    rw [Nat.div_one]
    exact gridExponent_le (mul_pow_lt h hk)
  -- a number of 64 bits lies that far up in the scale of the smallest one
  have hgrid := hgrids 1074 1086 (by decide)
  have hround := roundDiv_grid_le .toEven (n * Nat.pow 2 1074) 1
  have hunits := mul_pow_lt hround (Nat.add_lt_add_left (Nat.lt_succ_of_le hgrid) 53)
  have hlog := log2_lt_of_lt_pow hunits (by decide)
  rw [Magnitude.ofNat?, Magnitude.nearest?, dif_pos (Nat.lt_trans hlog (by decide))]
  rfl

theorem Binary64.isFinite_ofInt {i : Int} (h : i.natAbs ≤ Nat.pow 2 64) :
    (Binary64.ofInt i).isFinite = true := by
  obtain ⟨m, hm⟩ := Option.isSome_iff_exists.mp (Magnitude.ofNat?_isSome h)
  rw [Binary64.ofInt, hm]
  rfl

namespace Json

mutual

/-- Whether all numbers of a value are finite as floating-point numbers. -/
def numbersFinite : Json → Bool
  | .integer i => (Binary64.ofInt i).isFinite
  | .float x => x.isFinite
  | .array items => itemNumbersFinite items
  | .object members => memberNumbersFinite members
  | _ => true

/-- Whether all numbers of the items are finite. -/
def itemNumbersFinite : List Json → Bool
  | [] => true
  | v :: vs => numbersFinite v && itemNumbersFinite vs

/-- Whether all numbers of the members are finite. -/
def memberNumbersFinite : List (String × Json) → Bool
  | [] => true
  | (_, v) :: ms => numbersFinite v && memberNumbersFinite ms

end

/-! ## Numbers -/

theorem Numeral.natAbs_of_integer? {n : Numeral} {i : Int} (h : n.integer? = some i) :
    i.natAbs ≤ Nat.pow 2 64 := by
  show i.natAbs ≤ 18446744073709551616
  rw [Numeral.integer?] at h
  split at h
  · dsimp only at h
    split at h
    · split at h
      · obtain rfl := Option.some.inj h
        omega
      · cases h
    · split at h
      · obtain rfl := Option.some.inj h
        omega
      · cases h
  · cases h

theorem Numeral.isFinite_of_float? {n : Numeral} {x : Binary64} (h : n.float? = some x) :
    x.isFinite = true := by
  rw [Numeral.float?] at h
  obtain ⟨m, -, rfl⟩ := Option.map_eq_some_iff.mp h
  rfl

/-- A number that is read is finite, and no array or object. -/
theorem Numeral.read_eq_ok {n : Numeral} {v : Json} (h : n.read = .ok v) :
    v.numbersFinite = true ∧ v.depth = 0 := by
  rw [Numeral.read, Numeral.value?] at h
  cases hinteger : n.integer? with
  | some i =>
      rw [hinteger] at h
      obtain rfl := Except.ok.inj h
      exact ⟨Binary64.isFinite_ofInt (Numeral.natAbs_of_integer? hinteger), rfl⟩
  | none =>
      rw [hinteger] at h
      cases hfloat : n.float? with
      | some x =>
          rw [hfloat] at h
          obtain rfl := Except.ok.inj h
          exact ⟨Numeral.isFinite_of_float? hfloat, rfl⟩
      | none =>
          rw [hfloat] at h
          cases h

/-! ## Values -/

mutual

/-- **A value that is read nests no deeper** than its sketch and than is allowed, **and its numbers
    are finite**. -/
theorem bounds_of_value {n : Nat} {sketch : Sketch} {v : Json} (h : sketch.value n = .ok v) :
    v.depth ≤ min n sketch.depth ∧ v.numbersFinite = true := by
  match sketch with
  | .broken f | .brokenNumber f => exact nomatch h
  | .null | .flag _ =>
      obtain rfl := Except.ok.inj h
      exact ⟨Nat.zero_le _, rfl⟩
  | .number numeral =>
      obtain ⟨hfinite, hdepth⟩ := Numeral.read_eq_ok h
      exact ⟨hdepth ▸ Nat.zero_le _, hfinite⟩
  | .text q =>
      obtain ⟨s, -, rfl⟩ := map_eq_ok.mp h
      exact ⟨Nat.zero_le _, rfl⟩
  | .array items fault =>
      cases n with
      | zero => exact nomatch h
      | succ n =>
          obtain ⟨values, hvalues, hrest⟩ := bind_eq_ok.mp h
          obtain ⟨-, -, hv⟩ := bind_eq_ok.mp hrest
          obtain rfl := Except.ok.inj hv
          obtain ⟨hdepth, hfinite⟩ := bounds_of_values hvalues
          -- both bounds grow by the array itself
          refine ⟨?_, hfinite⟩
          rw [depth, Sketch.depth, Nat.add_min_add_right]
          exact Nat.succ_le_succ hdepth
  | .object members fault =>
      cases n with
      | zero => exact nomatch h
      | succ n =>
          obtain ⟨values, hvalues, hrest⟩ := bind_eq_ok.mp h
          obtain ⟨-, -, hv⟩ := bind_eq_ok.mp hrest
          obtain rfl := Except.ok.inj hv
          obtain ⟨hdepth, hfinite⟩ := bounds_of_memberValues hvalues
          refine ⟨?_, hfinite⟩
          rw [depth, Sketch.depth, Nat.add_min_add_right]
          exact Nat.succ_le_succ hdepth

theorem bounds_of_values {n : Nat} {items : List Sketch} {vs : List Json}
    (h : Sketch.values n items = .ok vs) :
    itemsDepth vs ≤ min n (Sketch.itemsDepth items) ∧ itemNumbersFinite vs = true := by
  match items with
  | [] =>
      obtain rfl := Except.ok.inj h
      exact ⟨Nat.zero_le _, rfl⟩
  | item :: items =>
      obtain ⟨v, hv, hrest⟩ := bind_eq_ok.mp h
      obtain ⟨vs', hvs, hcons⟩ := bind_eq_ok.mp hrest
      obtain rfl := Except.ok.inj hcons
      obtain ⟨hdepth, hfinite⟩ := bounds_of_value hv
      obtain ⟨hdepths, hfinites⟩ := bounds_of_values hvs
      rw [itemsDepth, Sketch.itemsDepth, itemNumbersFinite, hfinite, hfinites]
      exact ⟨by omega, rfl⟩

theorem bounds_of_memberValues {n : Nat} {members : List (Quotation × Sketch)}
    {ms : List (String × Json)} (h : Sketch.memberValues n members = .ok ms) :
    membersDepth ms ≤ min n (Sketch.membersDepth members) ∧ memberNumbersFinite ms = true := by
  match members with
  | [] =>
      obtain rfl := Except.ok.inj h
      exact ⟨Nat.zero_le _, rfl⟩
  | (quotation, sketch) :: members =>
      obtain ⟨name, -, hrest⟩ := bind_eq_ok.mp h
      obtain ⟨v, hv, hrest⟩ := bind_eq_ok.mp hrest
      obtain ⟨ms', hms, hcons⟩ := bind_eq_ok.mp hrest
      obtain rfl := Except.ok.inj hcons
      obtain ⟨hdepth, hfinite⟩ := bounds_of_value hv
      obtain ⟨hdepths, hfinites⟩ := bounds_of_memberValues hms
      rw [membersDepth, Sketch.membersDepth, memberNumbersFinite, hfinite, hfinites]
      exact ⟨by omega, rfl⟩

end

end Json

end CaskLint
