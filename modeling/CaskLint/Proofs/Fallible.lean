/-!
# Computations that may fail

  Readers are chains of steps, each of which may fail. Such a chain succeeds when every step does,
  so its result comes apart into the results of the steps (`bind_eq_ok`, `map_eq_ok`,
  `mapError_eq_ok`), and a chain whose first step is known loses that step (`ok_bind`,
  `error_bind`). Where every step can fail in one way only, the whole chain is a single
  condition (**`okIf`**). Where it does not matter how a chain fails, only what it gives
  (`Except.toOption`), it is a single condition as well (**`someIf`**). Which failures a chain may
  end in is told by those of its steps (**`FailsOnly`**).
-/

namespace CaskLint

variable {ε ε' α β : Type}

@[simp] theorem ok_bind (a : α) (f : α → Except ε β) : (Except.ok a >>= f) = f a := rfl

@[simp] theorem error_bind (e : ε) (f : α → Except ε β) :
    (Except.error e >>= f) = Except.error e := rfl

@[simp] theorem map_ok (f : α → β) (a : α) :
    (f <$> (Except.ok a : Except ε α)) = .ok (f a) := rfl

@[simp] theorem map_error (f : α → β) (e : ε) :
    (f <$> (Except.error e : Except ε α)) = .error e := rfl

/-- A chain succeeds when its first step and the rest after that step do. -/
theorem bind_eq_ok {x : Except ε α} {f : α → Except ε β} {b : β} :
    (x >>= f) = .ok b ↔ ∃ a, x = .ok a ∧ f a = .ok b := by
  cases x with
  | error e =>
      constructor
      · intro h
        exact nomatch h
      · rintro ⟨a, h, -⟩
        exact nomatch h
  | ok a =>
      constructor
      · intro h
        exact ⟨a, rfl, h⟩
      · rintro ⟨a', h, hb⟩
        obtain rfl := Except.ok.inj h
        exact hb

theorem map_eq_ok {x : Except ε α} {f : α → β} {b : β} :
    (f <$> x) = .ok b ↔ ∃ a, x = .ok a ∧ f a = b := by
  cases x with
  | error e => simp
  | ok a => simp

/-- Another wording of the error changes no success. -/
theorem mapError_eq_ok {x : Except ε α} {f : ε → ε'} {a : α} :
    x.mapError f = .ok a ↔ x = .ok a := by
  cases x with
  | error e =>
      constructor
      · intro h
        cases h
      · intro h
        cases h
  | ok a' =>
      constructor
      · intro h
        exact congrArg Except.ok (Except.ok.inj h)
      · intro h
        exact congrArg Except.ok (Except.ok.inj h)

/-! ## Lists of computations -/

/-- When each member of a list succeeds, the list does. -/
theorem mapM_eq_ok_map {f : α → Except ε β} {g : α → β} {as : List α}
    (h : ∀ a ∈ as, f a = .ok (g a)) : as.mapM f = .ok (as.map g) := by
  induction as with
  | nil => rfl
  | cons a as ih =>
      obtain ⟨ha, has⟩ := List.forall_mem_cons.mp h
      rw [List.mapM_cons, ha, ok_bind, ih has]
      rfl

theorem mapM_congr {f g : α → Except ε β} {as : List α} (h : ∀ a ∈ as, f a = g a) :
    as.mapM f = as.mapM g := by
  induction as with
  | nil => rfl
  | cons a as ih =>
      obtain ⟨ha, has⟩ := List.forall_mem_cons.mp h
      rw [List.mapM_cons, List.mapM_cons, ha, ih has]

/-- When some member of a list fails, the list fails as one of its members does. -/
theorem mapM_eq_error_of_mem {f : α → Except ε β} {as : List α} {a : α} {e : ε} (ha : a ∈ as)
    (h : f a = .error e) : ∃ a' ∈ as, ∃ e', f a' = .error e' ∧ as.mapM f = .error e' := by
  induction as with
  | nil => exact nomatch ha
  | cons first rest ih =>
      cases hfirst : f first with
      | error e' =>
          refine ⟨first, List.mem_cons_self .., e', hfirst, ?_⟩
          rw [List.mapM_cons, hfirst, error_bind]
      | ok b =>
          -- the first one succeeds, so the failure is one of the rest
          have hrest : a ∈ rest := by
            rcases List.mem_cons.mp ha with rfl | hrest
            · rw [hfirst] at h
              cases h
            · exact hrest
          obtain ⟨a', ha', e', he', hmap⟩ := ih hrest
          refine ⟨a', List.mem_cons_of_mem first ha', e', he', ?_⟩
          rw [List.mapM_cons, hfirst, ok_bind, hmap, error_bind]

/-! ## Chains that fail in one way only -/

/-- Succeeds with `a` if the condition holds, and fails with `e` if it does not. -/
def okIf (condition : Bool) (e : ε) (a : α) : Except ε α :=
  if condition then .ok a else .error e

@[simp] theorem okIf_true (e : ε) (a : α) : okIf true e a = .ok a := rfl

@[simp] theorem okIf_false (e : ε) (a : α) : okIf false e a = .error e := rfl

/-! ## Failures of a kind -/

section

variable {P : ε → Prop}

/-- If the computation fails, it does so in one of these ways. -/
def FailsOnly (P : ε → Prop) (x : Except ε α) : Prop := ∀ e, x = .error e → P e

theorem failsOnly_ok (a : α) : FailsOnly P (.ok a : Except ε α) := fun _ h => nomatch h

theorem failsOnly_error {e : ε} (h : P e) : FailsOnly P (.error e : Except ε α) := by
  rintro e' he
  obtain rfl := Except.error.inj he
  exact h

theorem FailsOnly.bind {x : Except ε α} {f : α → Except ε β} (hx : FailsOnly P x)
    (hf : ∀ a, x = .ok a → FailsOnly P (f a)) : FailsOnly P (x >>= f) := by
  cases x with
  | error e => exact failsOnly_error (hx e rfl)
  | ok a => exact hf a rfl

/-- A step that succeeds leaves the failures to the rest. -/
theorem failsOnly_ok_bind {x : Except ε α} {a : α} {f : α → Except ε β} (hx : x = .ok a)
    (hf : FailsOnly P (f a)) : FailsOnly P (x >>= f) := by
  rw [hx]
  exact hf

theorem FailsOnly.map {x : Except ε α} (hx : FailsOnly P x) (f : α → β) :
    FailsOnly P (f <$> x) := by
  cases x with
  | error e => exact failsOnly_error (hx e rfl)
  | ok a => exact failsOnly_ok _

/-- Failures that are worded anew. -/
theorem failsOnly_mapError {P : ε' → Prop} {f : ε → ε'} (h : ∀ e, P (f e)) (x : Except ε α) :
    FailsOnly P (x.mapError f) := by
  cases x with
  | error e => exact failsOnly_error (h e)
  | ok a => exact failsOnly_ok a

end

/-! ## What a chain gives -/

@[simp] theorem toOption_ok (a : α) : (Except.ok a : Except ε α).toOption = some a := rfl

@[simp] theorem toOption_error (e : ε) : (Except.error e : Except ε α).toOption = none := rfl

theorem toOption_bind (x : Except ε α) (f : α → Except ε β) :
    (x >>= f).toOption = x.toOption.bind fun a => (f a).toOption := by
  cases x <;> rfl

theorem toOption_map (x : Except ε α) (f : α → β) : (f <$> x).toOption = x.toOption.map f := by
  cases x <;> rfl

theorem toOption_mapError (x : Except ε α) (f : ε → ε') :
    (x.mapError f).toOption = x.toOption := by
  cases x <;> rfl

theorem toOption_eq_some {x : Except ε α} {a : α} : x.toOption = some a ↔ x = .ok a := by
  cases x <;> simp

/-- `a`, if the condition holds. -/
def someIf (condition : Bool) (a : α) : Option α :=
  if condition then some a else none

@[simp] theorem someIf_true (a : α) : someIf true a = some a := rfl

@[simp] theorem someIf_false (a : α) : someIf false a = none := rfl

theorem someIf_eq_some {condition : Bool} {a b : α} :
    someIf condition a = some b ↔ condition = true ∧ a = b := by
  cases condition <;> simp

@[simp] theorem toOption_okIf (condition : Bool) (e : ε) (a : α) :
    (okIf condition e a).toOption = someIf condition a := by
  cases condition <;> rfl

/-- A last step that cannot fail changes the result only. -/
theorem toOption_map_someIf {x : Except ε α} {condition : Bool} {a : α} (f : α → β)
    (h : x.toOption = someIf condition a) : (f <$> x).toOption = someIf condition (f a) := by
  rw [toOption_map, h]
  cases condition <;> rfl

/-- Two steps give something under both conditions. -/
theorem toOption_bind_someIf {x : Except ε α} {f : α → Except ε β} {condition next : Bool}
    {a : α} {b : β} (hx : x.toOption = someIf condition a)
    (hf : (f a).toOption = someIf next b) :
    (x >>= f).toOption = someIf (condition && next) b := by
  rw [toOption_bind, hx]
  cases condition with
  | true => exact hf
  | false => rfl

end CaskLint
