import CaskLint.Proofs.Json.Bounds
import Mathlib.Data.List.Forall2

/-!
# Values without a limit

  How many arrays and objects may be open decides only whether a value is read, not what is read:
  **`Sketch.Means`** is the value of a sketch without any limit, and within a limit there is that
  value or none (**`value_eq_ok`**). An array means what its items mean and an object what its
  members do (`means_array`, `means_object`), with no limit to hand down.

  A value means something exactly when it is well formed, its numbers are in range and its
  surrogates are paired (**`Sketch.sound_iff`**). Then it can also be passed over
  (`skip_of_means`).
-/

namespace CaskLint.Json

/-! ## Lists -/

theorem values_eq_ok {n : Nat} {items : List Sketch} {vs : List Json} :
    Sketch.values n items = .ok vs ↔
      List.Forall₂ (fun item v => item.value n = .ok v) items vs := by
  induction items generalizing vs with
  | nil =>
      rw [List.forall₂_nil_left_iff]
      exact ⟨fun h => (Except.ok.inj h).symm, fun h => h ▸ rfl⟩
  | cons item items ih =>
      rw [List.forall₂_cons_left_iff]
      constructor
      · intro h
        obtain ⟨v, hv, h⟩ := bind_eq_ok.mp h
        obtain ⟨vs', hvs, h⟩ := bind_eq_ok.mp h
        exact ⟨v, vs', hv, ih.mp hvs, (Except.ok.inj h).symm⟩
      · rintro ⟨v, vs', hv, hvs, rfl⟩
        exact bind_eq_ok.mpr ⟨v, hv, bind_eq_ok.mpr ⟨vs', ih.mpr hvs, rfl⟩⟩

theorem memberValues_cons_eq_ok {n : Nat} {q : Quotation} {sketch : Sketch}
    {members : List (Quotation × Sketch)} {ms : List (String × Json)} :
    Sketch.memberValues n ((q, sketch) :: members) = .ok ms ↔
      ∃ name v ms', q.read = .ok name ∧ sketch.value n = .ok v ∧
        Sketch.memberValues n members = .ok ms' ∧ ms = (name, v) :: ms' := by
  constructor
  · intro h
    obtain ⟨name, hname, h⟩ := bind_eq_ok.mp h
    obtain ⟨v, hv, h⟩ := bind_eq_ok.mp h
    obtain ⟨ms', hms, h⟩ := bind_eq_ok.mp h
    exact ⟨name, v, ms', hname, hv, hms, (Except.ok.inj h).symm⟩
  · rintro ⟨name, v, ms', hname, hv, hms, rfl⟩
    exact bind_eq_ok.mpr ⟨name, hname, bind_eq_ok.mpr ⟨v, hv,
      bind_eq_ok.mpr ⟨ms', hms, rfl⟩⟩⟩

theorem memberValues_eq_ok {n : Nat} {members : List (Quotation × Sketch)}
    {ms : List (String × Json)} :
    Sketch.memberValues n members = .ok ms ↔
      List.Forall₂ (fun member m => member.1.read = .ok m.1 ∧ member.2.value n = .ok m.2)
        members ms := by
  induction members generalizing ms with
  | nil =>
      rw [List.forall₂_nil_left_iff]
      exact ⟨fun h => (Except.ok.inj h).symm, fun h => h ▸ rfl⟩
  | cons member members ih =>
      obtain ⟨quotation, sketch⟩ := member
      rw [memberValues_cons_eq_ok, List.forall₂_cons_left_iff]
      constructor
      · rintro ⟨name, v, ms', hname, hv, hms, rfl⟩
        exact ⟨(name, v), ms', ⟨hname, hv⟩, ih.mp hms, rfl⟩
      · rintro ⟨⟨name, v⟩, ms', ⟨hname, hv⟩, hms, rfl⟩
        exact ⟨name, v, ms', hname, hv, ih.mpr hms, rfl⟩

theorem depth_le_itemsDepth {items : List Sketch} {v : Sketch} (h : v ∈ items) :
    v.depth ≤ Sketch.itemsDepth items := by
  induction items with
  | nil => exact nomatch h
  | cons item items ih =>
      rw [Sketch.itemsDepth]
      rcases List.mem_cons.mp h with rfl | h
      · exact Nat.le_max_left ..
      · exact Nat.le_trans (ih h) (Nat.le_max_right ..)

theorem depth_le_membersDepth {members : List (Quotation × Sketch)} {m : Quotation × Sketch}
    (h : m ∈ members) : m.2.depth ≤ Sketch.membersDepth members := by
  induction members with
  | nil => exact nomatch h
  | cons member members ih =>
      rw [Sketch.membersDepth]
      rcases List.mem_cons.mp h with rfl | h
      · exact Nat.le_max_left ..
      · exact Nat.le_trans (ih h) (Nat.le_max_right ..)

/-- Members without some of them nest no deeper. -/
theorem membersDepth_le_of_subset {members members' : List (Quotation × Sketch)}
    (h : members ⊆ members') : Sketch.membersDepth members ≤ Sketch.membersDepth members' := by
  induction members with
  | nil => exact Nat.zero_le _
  | cons member members ih =>
      obtain ⟨hmember, hmembers⟩ := List.cons_subset.mp h
      exact Nat.max_le.mpr ⟨depth_le_membersDepth hmember, ih hmembers⟩

/-! ## Arrays and objects -/

theorem value_array_eq_ok {n : Nat} {items : List Sketch} {fault : Option Fault} {v : Json} :
    (Sketch.array items fault).value n = .ok v ↔ fault = none ∧ ∃ k vs, n = k + 1 ∧
      v = .array vs ∧ List.Forall₂ (fun item v => item.value k = .ok v) items vs := by
  cases n with
  | zero =>
      constructor
      · intro h
        exact nomatch h
      · rintro ⟨-, k, vs, h, -⟩
        exact nomatch h
  | succ n =>
      constructor
      · intro h
        obtain ⟨vs, hvs, h⟩ := bind_eq_ok.mp h
        obtain ⟨_, hfault, h⟩ := bind_eq_ok.mp h
        cases fault with
        | some f => exact nomatch hfault
        | none => exact ⟨rfl, n, vs, rfl, (Except.ok.inj h).symm, values_eq_ok.mp hvs⟩
      · rintro ⟨rfl, k, vs, hk, rfl, hvs⟩
        obtain rfl := Nat.succ.inj hk
        exact bind_eq_ok.mpr ⟨vs, values_eq_ok.mpr hvs, rfl⟩

theorem value_object_eq_ok {n : Nat} {members : List (Quotation × Sketch)} {fault : Option Fault}
    {v : Json} :
    (Sketch.object members fault).value n = .ok v ↔ fault = none ∧ ∃ k ms, n = k + 1 ∧
      v = .object ms ∧ List.Forall₂
        (fun member m => member.1.read = .ok m.1 ∧ member.2.value k = .ok m.2) members ms := by
  cases n with
  | zero =>
      constructor
      · intro h
        exact nomatch h
      · rintro ⟨-, k, ms, h, -⟩
        exact nomatch h
  | succ n =>
      constructor
      · intro h
        obtain ⟨ms, hms, h⟩ := bind_eq_ok.mp h
        obtain ⟨_, hfault, h⟩ := bind_eq_ok.mp h
        cases fault with
        | some f => exact nomatch hfault
        | none => exact ⟨rfl, n, ms, rfl, (Except.ok.inj h).symm, memberValues_eq_ok.mp hms⟩
      · rintro ⟨rfl, k, ms, hk, rfl, hms⟩
        obtain rfl := Nat.succ.inj hk
        exact bind_eq_ok.mpr ⟨ms, memberValues_eq_ok.mpr hms, rfl⟩

/-! ## No limit -/

mutual

/-- What is read within a limit nests no deeper than that, and is the same within any limit that
    its depth allows. -/
theorem stable_of_value {n : Nat} {s : Sketch} {v : Json} (h : s.value n = .ok v) :
    s.depth ≤ n ∧ ∀ m, s.depth ≤ m → s.value m = .ok v := by
  match s with
  | .broken f | .brokenNumber f => exact nomatch h
  | .null | .flag _ | .number _ | .text _ => exact ⟨Nat.zero_le n, fun _ _ => h⟩
  | .array items fault =>
      obtain ⟨rfl, k, vs, rfl, rfl, hvs⟩ := value_array_eq_ok.mp h
      obtain ⟨hdepth, hstable⟩ := stable_of_values (values_eq_ok.mpr hvs)
      refine ⟨Nat.succ_le_succ hdepth, fun m hm => ?_⟩
      obtain ⟨m, rfl⟩ := Nat.exists_eq_add_one_of_ne_zero (Nat.ne_zero_of_lt hm)
      have hvs' := values_eq_ok.mp (hstable m (Nat.le_of_succ_le_succ hm))
      exact value_array_eq_ok.mpr ⟨rfl, m, vs, rfl, rfl, hvs'⟩
  | .object members fault =>
      obtain ⟨rfl, k, ms, rfl, rfl, hms⟩ := value_object_eq_ok.mp h
      obtain ⟨hdepth, hstable⟩ := stable_of_memberValues (memberValues_eq_ok.mpr hms)
      refine ⟨Nat.succ_le_succ hdepth, fun m hm => ?_⟩
      obtain ⟨m, rfl⟩ := Nat.exists_eq_add_one_of_ne_zero (Nat.ne_zero_of_lt hm)
      have hms' := memberValues_eq_ok.mp (hstable m (Nat.le_of_succ_le_succ hm))
      exact value_object_eq_ok.mpr ⟨rfl, m, ms, rfl, rfl, hms'⟩

theorem stable_of_values {n : Nat} {items : List Sketch} {vs : List Json}
    (h : Sketch.values n items = .ok vs) :
    Sketch.itemsDepth items ≤ n ∧
      ∀ m, Sketch.itemsDepth items ≤ m → Sketch.values m items = .ok vs := by
  match items with
  | [] => exact ⟨Nat.zero_le n, fun _ _ => h⟩
  | item :: items =>
      obtain ⟨v, hv, h⟩ := bind_eq_ok.mp h
      obtain ⟨vs', hvs, h⟩ := bind_eq_ok.mp h
      obtain ⟨hdepth, hstable⟩ := stable_of_value hv
      obtain ⟨hdepths, hstables⟩ := stable_of_values hvs
      refine ⟨Nat.max_le.mpr ⟨hdepth, hdepths⟩, fun m hm => ?_⟩
      obtain ⟨hm, hms⟩ := Nat.max_le.mp hm
      exact bind_eq_ok.mpr ⟨v, hstable m hm, bind_eq_ok.mpr ⟨vs', hstables m hms, h⟩⟩

theorem stable_of_memberValues {n : Nat} {members : List (Quotation × Sketch)}
    {ms : List (String × Json)} (h : Sketch.memberValues n members = .ok ms) :
    Sketch.membersDepth members ≤ n ∧
      ∀ m, Sketch.membersDepth members ≤ m → Sketch.memberValues m members = .ok ms := by
  match members with
  | [] => exact ⟨Nat.zero_le n, fun _ _ => h⟩
  | (quotation, item) :: members =>
      obtain ⟨name, v, ms', hname, hv, hms, rfl⟩ := memberValues_cons_eq_ok.mp h
      obtain ⟨hdepth, hstable⟩ := stable_of_value hv
      obtain ⟨hdepths, hstables⟩ := stable_of_memberValues hms
      refine ⟨Nat.max_le.mpr ⟨hdepth, hdepths⟩, fun m hm => ?_⟩
      obtain ⟨hm, hms⟩ := Nat.max_le.mp hm
      exact memberValues_cons_eq_ok.mpr ⟨name, v, ms', hname, hstable m hm, hstables m hms, rfl⟩

end

/-- The value of a sketch, however deep it nests. -/
def Sketch.Means (s : Sketch) (v : Json) : Prop := s.value s.depth = .ok v

/-- **A limit decides whether a value is read, and nothing else.** -/
theorem value_eq_ok {n : Nat} {s : Sketch} {v : Json} :
    s.value n = .ok v ↔ s.depth ≤ n ∧ s.Means v := by
  constructor
  · intro h
    obtain ⟨hdepth, hstable⟩ := stable_of_value h
    exact ⟨hdepth, hstable s.depth (Nat.le_refl _)⟩
  · rintro ⟨hdepth, h⟩
    exact (stable_of_value h).2 n hdepth

theorem Sketch.Means.eq {s : Sketch} {v w : Json} (hv : s.Means v) (hw : s.Means w) : v = w :=
  Except.ok.inj (hv.symm.trans hw)

/-- One value is what one sketch means. -/
theorem exists_eq_singleton_of_means {items : List Sketch} {v : Json}
    (h : List.Forall₂ Sketch.Means items [v]) : ∃ s, items = [s] ∧ s.Means v := by
  obtain ⟨s, rest, hs, hrest, rfl⟩ := List.forall₂_cons_right_iff.mp h
  obtain rfl := List.forall₂_nil_right_iff.mp hrest
  exact ⟨s, rfl, hs⟩

/-- One sketch means one value. -/
theorem eq_singleton_of_means {s : Sketch} {v : Json} {vs : List Json} (hs : s.Means v)
    (h : List.Forall₂ Sketch.Means [s] vs) : vs = [v] := by
  obtain ⟨w, rest, hw, hrest, rfl⟩ := List.forall₂_cons_left_iff.mp h
  obtain rfl := List.forall₂_nil_left_iff.mp hrest
  rw [hs.eq hw]

/-- Items within a limit, item by item. -/
theorem forall₂_value_iff {n : Nat} {items : List Sketch} {vs : List Json} :
    List.Forall₂ (fun item v => item.value n = .ok v) items vs ↔
      Sketch.itemsDepth items ≤ n ∧ List.Forall₂ Sketch.Means items vs := by
  induction items generalizing vs with
  | nil => simp [Sketch.itemsDepth]
  | cons item items ih =>
      rw [List.forall₂_cons_left_iff, List.forall₂_cons_left_iff, Sketch.itemsDepth, Nat.max_le]
      constructor
      · rintro ⟨v, vs', hv, hvs, rfl⟩
        obtain ⟨hdepth, hmeans⟩ := value_eq_ok.mp hv
        obtain ⟨hdepths, hrest⟩ := ih.mp hvs
        exact ⟨⟨hdepth, hdepths⟩, v, vs', hmeans, hrest, rfl⟩
      · rintro ⟨⟨hdepth, hdepths⟩, v, vs', hmeans, hrest, rfl⟩
        exact ⟨v, vs', value_eq_ok.mpr ⟨hdepth, hmeans⟩, ih.mpr ⟨hdepths, hrest⟩, rfl⟩

/-- A member means a name and a value. -/
def MemberMeans (member : Quotation × Sketch) (m : String × Json) : Prop :=
  member.1.read = .ok m.1 ∧ member.2.Means m.2

theorem forall₂_memberValue_iff {n : Nat} {members : List (Quotation × Sketch)}
    {ms : List (String × Json)} :
    List.Forall₂ (fun member m => member.1.read = .ok m.1 ∧ member.2.value n = .ok m.2)
        members ms ↔
      Sketch.membersDepth members ≤ n ∧ List.Forall₂ MemberMeans members ms := by
  induction members generalizing ms with
  | nil => simp [Sketch.membersDepth]
  | cons member members ih =>
      rw [List.forall₂_cons_left_iff, List.forall₂_cons_left_iff, Sketch.membersDepth, Nat.max_le]
      constructor
      · rintro ⟨m, ms', ⟨hname, hv⟩, hms, rfl⟩
        obtain ⟨hdepth, hmeans⟩ := value_eq_ok.mp hv
        obtain ⟨hdepths, hrest⟩ := ih.mp hms
        exact ⟨⟨hdepth, hdepths⟩, m, ms', ⟨hname, hmeans⟩, hrest, rfl⟩
      · rintro ⟨⟨hdepth, hdepths⟩, m, ms', ⟨hname, hmeans⟩, hrest, rfl⟩
        exact ⟨m, ms', ⟨hname, value_eq_ok.mpr ⟨hdepth, hmeans⟩⟩, ih.mpr ⟨hdepths, hrest⟩, rfl⟩

/-- A value nests no deeper than its sketch. -/
theorem depth_le_of_means {s : Sketch} {v : Json} (h : s.Means v) : v.depth ≤ s.depth :=
  Nat.le_trans (bounds_of_value h).1 (Nat.min_le_right ..)

/-- An array means what its items mean. -/
theorem means_array {items : List Sketch} {fault : Option Fault} {v : Json} :
    (Sketch.array items fault).Means v ↔
      fault = none ∧ ∃ vs, v = .array vs ∧ List.Forall₂ Sketch.Means items vs := by
  rw [Sketch.Means, value_array_eq_ok]
  refine and_congr_right fun _ => ?_
  constructor
  · rintro ⟨k, vs, -, rfl, hvs⟩
    exact ⟨vs, rfl, (forall₂_value_iff.mp hvs).2⟩
  · rintro ⟨vs, rfl, hvs⟩
    exact ⟨_, vs, rfl, rfl, forall₂_value_iff.mpr ⟨Nat.le_refl _, hvs⟩⟩

/-- An object means what its members mean. -/
theorem means_object {members : List (Quotation × Sketch)} {fault : Option Fault} {v : Json} :
    (Sketch.object members fault).Means v ↔
      fault = none ∧ ∃ ms, v = .object ms ∧ List.Forall₂ MemberMeans members ms := by
  rw [Sketch.Means, value_object_eq_ok]
  refine and_congr_right fun _ => ?_
  constructor
  · rintro ⟨k, ms, -, rfl, hms⟩
    exact ⟨ms, rfl, (forall₂_memberValue_iff.mp hms).2⟩
  · rintro ⟨ms, rfl, hms⟩
    exact ⟨_, ms, rfl, rfl, forall₂_memberValue_iff.mpr ⟨Nat.le_refl _, hms⟩⟩

/-- Only `null` means `null`. -/
theorem eq_null_of_means {s : Sketch} (h : s.Means .null) : s = .null := by
  cases s with
  | null => rfl
  | number n =>
      have hread : n.read = .ok .null := h
      rw [Numeral.read, Numeral.value?] at hread
      cases hinteger : n.integer? with
      | some i =>
          rw [hinteger] at hread
          cases hread
      | none =>
          rw [hinteger] at hread
          cases hfloat : n.float? with
          | some x =>
              rw [hfloat] at hread
              cases hread
          | none =>
              rw [hfloat] at hread
              cases hread
  | text q =>
      obtain ⟨word, -, hword⟩ := map_eq_ok.mp h
      cases hword
  | array items fault =>
      obtain ⟨-, vs, hvs, -⟩ := means_array.mp h
      cases hvs
  | object members fault =>
      obtain ⟨-, ms, hms, -⟩ := means_object.mp h
      cases hms
  | broken f | brokenNumber f | flag b => cases h

/-! ## Strings that mean something -/

/-- Whether the code units of a string come in pairs. -/
def paired : List Piece → Bool
  | [] => true
  | .char _ :: ps => paired ps
  | .unit u :: ps =>
    if isLowSurrogate u then false
    else if isHighSurrogate u then
      match ps with
      | .unit v :: ps => isLowSurrogate v && paired ps
      | _ => false
    else paired ps

theorem exists_readPieces_iff {fault : Option Fault} {ps : List Piece} :
    (∃ cs, readPieces fault ps = .ok cs) ↔ fault = none ∧ paired ps = true := by
  -- one more character changes nothing about the rest
  have hmore : ∀ {c : Char} {x : Except Fault (List Char)},
      (∃ cs, (c :: ·) <$> x = .ok cs) ↔ ∃ cs, x = .ok cs := by
    intro c x
    cases x <;> simp
  fun_induction readPieces fault ps with
  | case1 => cases fault <;> simp [failOn, paired, Except.map]
  | case2 c ps ih =>
      rw [paired]
      exact hmore.trans ih
  | case3 u ps hlow =>
      rw [paired.eq_def]
      simp [hlow]
  | case4 u hlow hhigh v ps hpair ih =>
      rw [paired]
      simp only [hlow, hhigh, hpair, Bool.true_and]
      exact hmore.trans ih
  | case5 u hlow hhigh v ps hpair =>
      rw [paired]
      simp [hlow, hhigh, hpair]
  | case6 u hlow hhigh c ps | case7 u hlow hhigh =>
      rw [paired.eq_def]
      simp [hlow, hhigh]
  | case8 u ps hlow hhigh ih =>
      rw [paired.eq_def]
      simp only [hlow, hhigh]
      exact hmore.trans ih

/-- Whether a string is closed and its code units come in pairs. -/
def Quotation.sound (q : Quotation) : Bool := q.fault.isNone && paired q.pieces

theorem Quotation.sound_iff {q : Quotation} : q.sound = true ↔ ∃ s, q.read = .ok s := by
  rw [sound, Bool.and_eq_true, Option.isNone_iff_eq_none, ← exists_readPieces_iff]
  constructor
  · rintro ⟨cs, hcs⟩
    exact ⟨_, map_eq_ok.mpr ⟨cs, hcs, rfl⟩⟩
  · rintro ⟨s, h⟩
    obtain ⟨cs, hcs, -⟩ := map_eq_ok.mp h
    exact ⟨cs, hcs⟩

/-- A string that can be read has no fault. -/
theorem Quotation.fault_eq_none_of_read {q : Quotation} {s : String} (h : q.read = .ok s) :
    q.fault = none := by
  obtain ⟨cs, hcs, -⟩ := map_eq_ok.mp h
  exact (exists_readPieces_iff.mp ⟨cs, hcs⟩).1

/-! ## Passing over -/

mutual

/-- What means something can be passed over. -/
theorem skip_of_means {s : Sketch} {v : Json} (h : s.Means v) : s.skip = .ok () := by
  match s with
  | .broken f | .brokenNumber f => exact nomatch h
  | .null | .flag _ | .number _ => rfl
  | .text q =>
      obtain ⟨t, ht, -⟩ := map_eq_ok.mp h
      rw [Sketch.skip, Quotation.fault_eq_none_of_read ht]
      rfl
  | .array items fault =>
      obtain ⟨rfl, vs, -, hvs⟩ := means_array.mp h
      rw [Sketch.skip, skipItems_of_means hvs]
      rfl
  | .object members fault =>
      obtain ⟨rfl, ms, -, hms⟩ := means_object.mp h
      rw [Sketch.skip, skipMembers_of_means hms]
      rfl

theorem skipItems_of_means {items : List Sketch} {vs : List Json}
    (h : List.Forall₂ Sketch.Means items vs) : Sketch.skipItems items = .ok () := by
  match items, vs, h with
  | [], _, _ => rfl
  | item :: items, _, .cons hv hvs =>
      rw [Sketch.skipItems, skip_of_means hv]
      exact skipItems_of_means hvs

theorem skipMembers_of_means {members : List (Quotation × Sketch)} {ms : List (String × Json)}
    (h : List.Forall₂ MemberMeans members ms) : Sketch.skipMembers members = .ok () := by
  match members, ms, h with
  | [], _, _ => rfl
  | (quotation, item) :: members, _, .cons hm hms =>
      rw [Sketch.skipMembers, Quotation.fault_eq_none_of_read hm.1, skip_of_means hm.2]
      exact skipMembers_of_means hms

end

/-! ## Values that mean something -/

mutual

/-- Whether a value is well formed, its numbers are in range and its surrogates are paired. -/
def Sketch.sound : Sketch → Bool
  | .broken _ | .brokenNumber _ => false
  | .null | .flag _ => true
  | .number n => n.value?.isSome
  | .text q => q.sound
  | .array items fault => fault.isNone && Sketch.itemsSound items
  | .object members fault => fault.isNone && Sketch.membersSound members

/-- Whether all items are. -/
def Sketch.itemsSound : List Sketch → Bool
  | [] => true
  | v :: vs => v.sound && Sketch.itemsSound vs

/-- Whether all names and values of the members are. -/
def Sketch.membersSound : List (Quotation × Sketch) → Bool
  | [] => true
  | (name, v) :: ms => name.sound && v.sound && Sketch.membersSound ms

end

mutual

/-- **A sound value means something**, and nothing else does. -/
theorem Sketch.sound_iff {s : Sketch} : s.sound = true ↔ ∃ v, s.Means v := by
  match s with
  | .broken f | .brokenNumber f => exact ⟨fun h => (nomatch h), fun ⟨_, h⟩ => (nomatch h)⟩
  | .null => exact ⟨fun _ => ⟨.null, rfl⟩, fun _ => rfl⟩
  | .flag value => exact ⟨fun _ => ⟨.flag value, rfl⟩, fun _ => rfl⟩
  | .number n =>
      rw [Sketch.sound, Option.isSome_iff_exists]
      show _ ↔ ∃ v, n.read = .ok v
      rw [Numeral.read]
      cases n.value? <;> simp
  | .text q =>
      rw [Sketch.sound, Quotation.sound_iff]
      constructor
      · rintro ⟨t, ht⟩
        exact ⟨.text t, map_eq_ok.mpr ⟨t, ht, rfl⟩⟩
      · rintro ⟨v, hv⟩
        obtain ⟨t, ht, -⟩ := map_eq_ok.mp hv
        exact ⟨t, ht⟩
  | .array items fault =>
      rw [Sketch.sound, Bool.and_eq_true, Option.isNone_iff_eq_none, Sketch.itemsSound_iff]
      constructor
      · rintro ⟨rfl, vs, hvs⟩
        exact ⟨.array vs, means_array.mpr ⟨rfl, vs, rfl, hvs⟩⟩
      · rintro ⟨v, hv⟩
        obtain ⟨rfl, vs, -, hvs⟩ := means_array.mp hv
        exact ⟨rfl, vs, hvs⟩
  | .object members fault =>
      rw [Sketch.sound, Bool.and_eq_true, Option.isNone_iff_eq_none, Sketch.membersSound_iff]
      constructor
      · rintro ⟨rfl, ms, hms⟩
        exact ⟨.object ms, means_object.mpr ⟨rfl, ms, rfl, hms⟩⟩
      · rintro ⟨v, hv⟩
        obtain ⟨rfl, ms, -, hms⟩ := means_object.mp hv
        exact ⟨rfl, ms, hms⟩

theorem Sketch.itemsSound_iff {items : List Sketch} :
    Sketch.itemsSound items = true ↔ ∃ vs, List.Forall₂ Sketch.Means items vs := by
  match items with
  | [] => exact ⟨fun _ => ⟨[], .nil⟩, fun _ => rfl⟩
  | item :: items =>
      rw [Sketch.itemsSound, Bool.and_eq_true, Sketch.sound_iff, Sketch.itemsSound_iff]
      constructor
      · rintro ⟨⟨v, hv⟩, vs, hvs⟩
        exact ⟨v :: vs, .cons hv hvs⟩
      · rintro ⟨vs, hvs⟩
        obtain ⟨v, vs, hv, hvs, -⟩ := List.forall₂_cons_left_iff.mp hvs
        exact ⟨⟨v, hv⟩, vs, hvs⟩

theorem Sketch.membersSound_iff {members : List (Quotation × Sketch)} :
    Sketch.membersSound members = true ↔ ∃ ms, List.Forall₂ MemberMeans members ms := by
  match members with
  | [] => exact ⟨fun _ => ⟨[], .nil⟩, fun _ => rfl⟩
  | (q, item) :: members =>
      rw [Sketch.membersSound, Bool.and_eq_true, Bool.and_eq_true, Quotation.sound_iff,
        Sketch.sound_iff, Sketch.membersSound_iff]
      constructor
      · rintro ⟨⟨⟨name, hname⟩, v, hv⟩, ms, hms⟩
        exact ⟨(name, v) :: ms, .cons ⟨hname, hv⟩ hms⟩
      · rintro ⟨ms, hms⟩
        obtain ⟨m, ms, hm, hms, -⟩ := List.forall₂_cons_left_iff.mp hms
        exact ⟨⟨⟨m.1, hm.1⟩, m.2, hm.2⟩, ms, hms⟩

end

/-- An array is sound when its items are. -/
theorem Sketch.sound_array {items : List Sketch} {fault : Option Fault} :
    (Sketch.array items fault).sound = true ↔ fault = none ∧ ∀ v ∈ items, v.sound = true := by
  rw [Sketch.sound, Bool.and_eq_true, Option.isNone_iff_eq_none]
  refine and_congr_right fun _ => ?_
  induction items with
  | nil => exact ⟨fun _ => List.forall_mem_nil _, fun _ => rfl⟩
  | cons v items ih => rw [Sketch.itemsSound, Bool.and_eq_true, ih, List.forall_mem_cons]

/-- An object is sound when its members are, names and values. -/
theorem Sketch.sound_object {members : List (Quotation × Sketch)} {fault : Option Fault} :
    (Sketch.object members fault).sound = true ↔
      fault = none ∧ ∀ m ∈ members, m.1.sound = true ∧ m.2.sound = true := by
  rw [Sketch.sound, Bool.and_eq_true, Option.isNone_iff_eq_none]
  refine and_congr_right fun _ => ?_
  induction members with
  | nil => exact ⟨fun _ => List.forall_mem_nil _, fun _ => rfl⟩
  | cons m members ih =>
      rw [Sketch.membersSound, Bool.and_eq_true, Bool.and_eq_true, ih, List.forall_mem_cons]

end CaskLint.Json
