import CaskLint.Proofs.Record.Members

/-!
# The order of members does not matter

  Members are read one after the other, but which record they give depends only on the values
  that stand under each name (**`given`**). A field takes the only value under its name, or its
  stand-in if there is none (**`FieldOf`**), and a record is one such value for each field
  (**`RecordOf`**). So reading a record succeeds with certain values exactly when they are a record
  of the members (**`ofMembers_eq_ok`**), provided that no two fields share a name.

  What a record has for one of its fields is an entry of it (`Values.entries`). Whatever the members
  give is there (`RecordOf.exists_entry`), and another value may stand in its place
  (`RecordOf.exists_replaced`); likewise for a record given as a list.

  The first field is split off: what the members do to its slot (`fill`) and what they do to the
  slots of the other fields are two things (`assignAll_cons_eq_ok`, by induction on the members).
-/

namespace CaskLint.Record

variable {σ α β ε : Type} {V : σ → Type}

/-! ## Records without an order -/

/-- The values of the members with this name. -/
def given (ms : List (String × α)) (name : String) : List α :=
  (ms.filter fun m => m.1 == name).map Prod.snd

theorem given_cons_of_eq (v : α) (ms : List (String × α)) (name : String) :
    given ((name, v) :: ms) name = v :: given ms name := by
  simp [given]

theorem given_cons_of_ne {name name' : String} (h : name' ≠ name) (v : α)
    (ms : List (String × α)) : given ((name', v) :: ms) name = given ms name := by
  simp [given, h]

/-- A field takes the only value under its name, or its stand-in if there is none. -/
def FieldOf (P : (s : σ) → α → V s → Prop) (f : Field V) (vs : List α) (x : V f.shape) : Prop :=
  (∃ v, vs = [v] ∧ P f.shape v x) ∨ (vs = [] ∧ f.standIn = some x)

theorem fieldOf_nil {P : (s : σ) → α → V s → Prop} {f : Field V} {x : V f.shape} :
    FieldOf P f [] x ↔ f.standIn = some x := by
  constructor
  · rintro (⟨v, hv, -⟩ | ⟨-, hx⟩)
    · exact nomatch hv
    · exact hx
  · exact fun hx => Or.inr ⟨rfl, hx⟩

theorem fieldOf_singleton {P : (s : σ) → α → V s → Prop} {f : Field V} {v : α} {x : V f.shape} :
    FieldOf P f [v] x ↔ P f.shape v x := by
  constructor
  · rintro (⟨w, hw, hx⟩ | ⟨hnone, -⟩)
    · obtain rfl := List.singleton_inj.mp hw
      exact hx
    · exact nomatch hnone
  · exact fun hx => Or.inl ⟨v, rfl, hx⟩

theorem FieldOf.imp {P : (s : σ) → α → V s → Prop} {Q : (s : σ) → α → V s → Prop} {f : Field V}
    {vs : List α} {x : V f.shape} (h : ∀ v ∈ vs, P f.shape v x → Q f.shape v x)
    (hx : FieldOf P f vs x) : FieldOf Q f vs x := by
  rcases hx with ⟨v, rfl, hv⟩ | hnone
  · exact Or.inl ⟨v, rfl, h v (List.mem_singleton_self v) hv⟩
  · exact Or.inr hnone

/-- A field takes what it takes in whatever order the values come. -/
theorem FieldOf.perm {P : (s : σ) → α → V s → Prop} {f : Field V} {vs vs' : List α}
    {x : V f.shape} (h : vs.Perm vs') (hx : FieldOf P f vs x) : FieldOf P f vs' x := by
  rcases hx with ⟨v, rfl, hv⟩ | ⟨rfl, hx⟩
  · exact Or.inl ⟨v, List.perm_singleton.mp h.symm, hv⟩
  · exact Or.inr ⟨List.nil_perm.mp h, hx⟩

/-- A field takes a value only where there is no other. -/
theorem FieldOf.of_append_cons {P : (s : σ) → α → V s → Prop} {f : Field V} {vs vs' : List α}
    {v : α} {x : V f.shape} (hx : FieldOf P f (vs ++ v :: vs') x) :
    vs = [] ∧ vs' = [] ∧ P f.shape v x := by
  rcases hx with ⟨w, hw, hx⟩ | ⟨hnone, -⟩
  · rcases List.append_eq_singleton_iff.mp hw with ⟨hvs, hv⟩ | ⟨-, hv⟩
    · obtain ⟨rfl, hvs'⟩ := List.cons.inj hv
      exact ⟨hvs, hvs', hx⟩
    · exact nomatch hv
  · exact absurd hnone (by simp)

/-- Every field takes what it takes of the values under its name. -/
def RecordOf (P : (s : σ) → α → V s → Prop) (vals : String → List α) :
    (fs : List (Field V)) → Values V fs → Prop
  | [], _ => True
  | f :: fs, (x, xs) => FieldOf P f (vals f.name) x ∧ RecordOf P vals fs xs

/-- A record of some values is one of others if each field says so. -/
theorem RecordOf.imp {P : (s : σ) → α → V s → Prop} {Q : (s : σ) → β → V s → Prop}
    {vals : String → List α} {vals' : String → List β} {fs : List (Field V)} {xs : Values V fs}
    (h : ∀ f ∈ fs, ∀ x, FieldOf P f (vals f.name) x → FieldOf Q f (vals' f.name) x)
    (hxs : RecordOf P vals fs xs) : RecordOf Q vals' fs xs := by
  induction fs with
  | nil => trivial
  | cons f fs ih =>
      obtain ⟨x, xs⟩ := xs
      obtain ⟨hf, hfs⟩ := List.forall_mem_cons.mp h
      exact ⟨hf x hxs.1, ih hfs hxs.2⟩

/-- The fields of a record with their values. -/
def Values.entries : (fs : List (Field V)) → Values V fs → List ((f : Field V) × V f.shape)
  | [], _ => []
  | f :: fs, (x, xs) => ⟨f, x⟩ :: Values.entries fs xs

theorem Values.mem_of_mem_entries {fs : List (Field V)} {xs : Values V fs} {f : Field V}
    {x : V f.shape} (h : ⟨f, x⟩ ∈ Values.entries fs xs) : f ∈ fs := by
  induction fs with
  | nil => exact nomatch h
  | cons g fs ih =>
      obtain ⟨y, ys⟩ := xs
      rcases List.mem_cons.mp h with h | h
      · obtain rfl := (Sigma.mk.inj h).1
        exact List.mem_cons_self
      · exact List.mem_cons_of_mem g (ih h)

/-- A field has one value. -/
theorem Values.eq_of_mem_entries {fs : List (Field V)} (hnames : (fs.map Field.name).Nodup)
    {xs : Values V fs} {f : Field V} {x y : V f.shape} (hx : ⟨f, x⟩ ∈ Values.entries fs xs)
    (hy : ⟨f, y⟩ ∈ Values.entries fs xs) : x = y := by
  induction fs with
  | nil => exact nomatch hx
  | cons g fs ih =>
      obtain ⟨z, zs⟩ := xs
      obtain ⟨hg, hfs⟩ := List.nodup_cons.mp hnames
      have hne : ∀ {x}, ⟨f, x⟩ ∈ Values.entries fs zs → f ≠ g := by
        rintro x h rfl
        exact hg (List.mem_map_of_mem (Values.mem_of_mem_entries h))
      rcases List.mem_cons.mp hx with h | h
      · rcases List.mem_cons.mp hy with h' | h'
        · cases h
          cases h'
          rfl
        · exact absurd (Sigma.mk.inj h).1 (hne h')
      · rcases List.mem_cons.mp hy with h' | h'
        · exact absurd (Sigma.mk.inj h').1 (hne h)
        · exact ih hfs h h'

/-- What every field of a record takes. -/
theorem RecordOf.exists_entry {P : (s : σ) → α → V s → Prop} {vals : String → List α}
    {fs : List (Field V)} {xs : Values V fs} (hxs : RecordOf P vals fs xs) {f : Field V}
    (hf : f ∈ fs) : ∃ x, ⟨f, x⟩ ∈ Values.entries fs xs ∧ FieldOf P f (vals f.name) x := by
  induction fs with
  | nil => exact nomatch hf
  | cons g fs ih =>
      obtain ⟨x, xs⟩ := xs
      rcases List.mem_cons.mp hf with rfl | hf
      · exact ⟨x, List.mem_cons_self, hxs.1⟩
      · obtain ⟨y, hy, hfield⟩ := ih hxs.2 hf
        exact ⟨y, List.mem_cons_of_mem _ hy, hfield⟩

/-- Another value under the name of one field, if the field takes it. -/
theorem RecordOf.exists_replaced {P : (s : σ) → α → V s → Prop} {vals vals' : String → List α}
    {fs : List (Field V)} (hnames : (fs.map Field.name).Nodup) {xs : Values V fs}
    (hxs : RecordOf P vals fs xs) {f : Field V} (hf : f ∈ fs) {y : V f.shape}
    (hy : FieldOf P f (vals' f.name) y)
    (hothers : ∀ g ∈ fs, g.name ≠ f.name → vals' g.name = vals g.name) :
    ∃ ys, RecordOf P vals' fs ys := by
  induction fs with
  | nil => exact nomatch hf
  | cons g fs ih =>
      obtain ⟨x, xs⟩ := xs
      obtain ⟨hg, hfs⟩ := List.nodup_cons.mp hnames
      have hne : ∀ h ∈ fs, h.name ≠ g.name := fun h hh hname =>
        hg (hname ▸ List.mem_map_of_mem hh)
      obtain ⟨hfirst, hrest⟩ := List.forall_mem_cons.mp hothers
      rcases List.mem_cons.mp hf with rfl | hf
      · refine ⟨(y, xs), hy, hxs.2.imp fun h hh z hz => ?_⟩
        rw [hrest h hh (hne h hh)]
        exact hz
      · obtain ⟨ys, hys⟩ := ih hfs hxs.2 hf hrest
        refine ⟨(x, ys), ?_, hys⟩
        rw [hfirst (hne f hf).symm]
        exact hxs.1

/-! ## One field after the other -/

section

variable (fail : Mismatch → ε) (read : (s : σ) → α → Except ε (V s))

/-- What the values of the members with the name of a field do to its slot. -/
def fill (f : Field V) : Option (V f.shape) → List α → Except ε (Option (V f.shape))
  | slot, [] => .ok slot
  | some _, _ :: _ => .error (fail (.duplicateMember f.name))
  | none, v :: vs => do fill f (some (← read f.shape v)) vs

variable {fail read} {f : Field V} {fs : List (Field V)}

/-- An empty slot takes one value at most. -/
theorem fill_none_eq_ok {vs : List α} {slot : Option (V f.shape)} :
    fill fail read f none vs = .ok slot ↔
      (vs = [] ∧ slot = none) ∨ ∃ v x, vs = [v] ∧ read f.shape v = .ok x ∧ slot = some x := by
  match vs with
  | [] =>
      constructor
      · intro h
        exact Or.inl ⟨rfl, (Except.ok.inj h).symm⟩
      · rintro (⟨-, rfl⟩ | ⟨v, x, h, -⟩)
        · rfl
        · exact nomatch h
  | [v] =>
      constructor
      · intro h
        obtain ⟨x, hx, h⟩ := bind_eq_ok.mp h
        exact Or.inr ⟨v, x, rfl, hx, (Except.ok.inj h).symm⟩
      · rintro (⟨h, -⟩ | ⟨w, x, h, hx, rfl⟩)
        · exact nomatch h
        · obtain rfl : v = w := (List.cons.inj h).1
          exact bind_eq_ok.mpr ⟨x, hx, rfl⟩
  | v :: w :: vs =>
      constructor
      · intro h
        obtain ⟨x, hx, h⟩ := bind_eq_ok.mp h
        exact nomatch h
      · rintro (⟨h, -⟩ | ⟨w, x, h, -⟩)
        · exact nomatch h
        · exact nomatch h

/-- The members fill the slot of the first field and, whatever they do to that one, the slots of
    the others. -/
theorem assignAll_cons_eq_ok (hf : ∀ g ∈ fs, g.name ≠ f.name) {ms : List (String × α)}
    {slot slot' : Option (V f.shape)} {slots slots' : Slots V fs} :
    Slots.assignAll fail read (f :: fs) (slot, slots) ms = .ok (slot', slots') ↔
      fill fail read f slot (given ms f.name) = .ok slot' ∧
        Slots.assignAll fail read fs slots ms = .ok slots' := by
  induction ms generalizing slot slots with
  | nil =>
      constructor
      · intro h
        obtain ⟨rfl, rfl⟩ := Prod.mk.inj (Except.ok.inj h)
        exact ⟨rfl, rfl⟩
      · rintro ⟨hslot, hslots⟩
        obtain rfl := Except.ok.inj hslot
        obtain rfl := Except.ok.inj hslots
        rfl
  | cons m ms ih =>
      obtain ⟨name, v⟩ := m
      by_cases hname : f.name = name
      · -- the member is that of the first field, so no other one has it
        subst hname
        rw [Slots.assignAll_of_some (Slots.assign?_of_eq rfl slot slots),
          Slots.assignAll_of_none (Slots.assign?_eq_none.mpr hf), given_cons_of_eq]
        cases slot with
        | some x =>
            constructor
            · intro h
              exact nomatch h
            · rintro ⟨h, -⟩
              exact nomatch h
        | none =>
            rw [fill]
            cases read f.shape v with
            | error e =>
                constructor
                · intro h
                  exact nomatch h
                · rintro ⟨h, -⟩
                  exact nomatch h
            | ok x => exact ih
      · rw [given_cons_of_ne (Ne.symm hname)]
        cases hrest : Slots.assign? fail name (fun s => read s v) fs slots with
        | none =>
            rw [Slots.assignAll_of_none (Slots.assign?_of_rest hname hrest slot),
              Slots.assignAll_of_none hrest]
            exact ih
        | some assigned =>
            rw [Slots.assignAll_of_some (Slots.assign?_of_rest hname hrest slot),
              Slots.assignAll_of_some hrest]
            cases assigned with
            | error e =>
                constructor
                · intro h
                  exact nomatch h
                · rintro ⟨-, h⟩
                  exact nomatch h
            | ok slots'' => exact ih

/-- Where a member has been read, no second one of its name is. -/
theorem assign?_of_given {fs : List (Field V)} (hnames : (fs.map Field.name).Nodup)
    {ms : List (String × α)} {slots : Slots V fs}
    (h : Slots.assignAll fail read fs (Slots.empty fs) ms = .ok slots) {f : Field V} (hf : f ∈ fs)
    (hgiven : given ms f.name ≠ []) (next : (s : σ) → Except ε (V s)) :
    Slots.assign? fail f.name next fs slots =
      some (.error (fail (.duplicateMember f.name))) := by
  induction fs with
  | nil => exact nomatch hf
  | cons g fs ih =>
      obtain ⟨slot, slots⟩ := slots
      obtain ⟨hg, hfs⟩ := List.nodup_cons.mp hnames
      have hne : ∀ f ∈ fs, f.name ≠ g.name := fun f hf hname =>
        hg (hname ▸ List.mem_map_of_mem hf)
      obtain ⟨hslot, hslots⟩ := (assignAll_cons_eq_ok hne).mp h
      rcases List.mem_cons.mp hf with rfl | hf
      · rw [Slots.assign?_of_eq rfl]
        rcases fill_none_eq_ok.mp hslot with ⟨hnone, -⟩ | ⟨v, x, -, -, rfl⟩
        · exact absurd hnone hgiven
        · rfl
      · rw [Slots.assign?_of_rest (hne f hf).symm (ih hfs hslots hf)]
        rfl

theorem complete_cons_eq_ok {slot : Option (V f.shape)} {slots : Slots V fs} {x : V f.shape}
    {xs : Values V fs} :
    Slots.complete (f :: fs) (slot, slots) = .ok (x, xs) ↔
      slot.or f.standIn = some x ∧ Slots.complete fs slots = .ok xs := by
  rw [Slots.complete]
  cases slot.or f.standIn with
  | none =>
      constructor
      · intro h
        cases h
      · rintro ⟨h, -⟩
        cases h
  | some y =>
      constructor
      · intro h
        obtain ⟨ys, hys, h⟩ := map_eq_ok.mp h
        obtain ⟨rfl, rfl⟩ := Prod.mk.inj h
        exact ⟨rfl, hys⟩
      · rintro ⟨hy, hxs⟩
        obtain rfl := Option.some.inj hy
        exact map_eq_ok.mpr ⟨xs, hxs, rfl⟩

/-- A record without fields takes any members. -/
theorem ofMembers_nil (ms : List (String × α)) :
    ofMembers fail read ([] : List (Field V)) ms = .ok () := by
  induction ms with
  | nil => rfl
  | cons m ms ih => exact (ofMembers_unknown (List.forall_mem_nil _) m.2).trans ih

theorem ofMembers_cons_eq_ok (hf : ∀ g ∈ fs, g.name ≠ f.name) {ms : List (String × α)}
    {x : V f.shape} {xs : Values V fs} :
    ofMembers fail read (f :: fs) ms = .ok (x, xs) ↔
      FieldOf (fun s v x => read s v = .ok x) f (given ms f.name) x ∧
        ofMembers fail read fs ms = .ok xs := by
  constructor
  · intro h
    obtain ⟨⟨slot, slots⟩, hslots, h⟩ := bind_eq_ok.mp h
    obtain ⟨hslot, hrest⟩ := (assignAll_cons_eq_ok hf).mp hslots
    obtain ⟨hx, hxs⟩ := complete_cons_eq_ok.mp (mapError_eq_ok.mp h)
    refine ⟨?_, bind_eq_ok.mpr ⟨slots, hrest, mapError_eq_ok.mpr hxs⟩⟩
    rcases fill_none_eq_ok.mp hslot with ⟨hnone, rfl⟩ | ⟨v, y, hv, hy, rfl⟩
    · exact Or.inr ⟨hnone, hx⟩
    · obtain rfl := Option.some.inj hx
      exact Or.inl ⟨v, hv, hy⟩
  · rintro ⟨hx, h⟩
    obtain ⟨slots, hrest, h⟩ := bind_eq_ok.mp h
    have hxs := mapError_eq_ok.mp h
    -- the slot of the first field after all members
    obtain ⟨slot, hslot, hvalue⟩ : ∃ slot, fill fail read f none (given ms f.name) = .ok slot ∧
        slot.or f.standIn = some x := by
      rcases hx with ⟨v, hv, hy⟩ | ⟨hnone, hx⟩
      · exact ⟨some x, fill_none_eq_ok.mpr (Or.inr ⟨v, x, hv, hy, rfl⟩), rfl⟩
      · exact ⟨none, fill_none_eq_ok.mpr (Or.inl ⟨hnone, rfl⟩), hx⟩
    exact bind_eq_ok.mpr ⟨(slot, slots), (assignAll_cons_eq_ok hf).mpr ⟨hslot, hrest⟩,
      mapError_eq_ok.mpr (complete_cons_eq_ok.mpr ⟨hvalue, hxs⟩)⟩

/-- **The order of the members does not matter**: they give certain values exactly when those are
    a record of what is given under each name. -/
theorem ofMembers_eq_ok {fs : List (Field V)} (hnames : (fs.map Field.name).Nodup)
    {ms : List (String × α)} {xs : Values V fs} :
    ofMembers fail read fs ms = .ok xs ↔
      RecordOf (fun s v x => read s v = .ok x) (given ms) fs xs := by
  induction fs with
  | nil => exact ⟨fun _ => trivial, fun _ => ofMembers_nil ms⟩
  | cons f fs ih =>
      obtain ⟨x, xs⟩ := xs
      obtain ⟨hf, hfs⟩ := List.nodup_cons.mp hnames
      have hne : ∀ g ∈ fs, g.name ≠ f.name := fun g hg hname =>
        hf (hname ▸ List.mem_map_of_mem hg)
      exact (ofMembers_cons_eq_ok hne).trans (and_congr_right fun _ => ih hfs)

end

/-! ## Records given as lists -/

/-- Every field takes the value at its position, or its stand-in where there are no more. -/
def ItemsOf (P : (s : σ) → α → V s → Prop) : (fs : List (Field V)) → List α → Values V fs → Prop
  | [], vs, _ => vs = []
  | f :: fs, [], (x, xs) => f.standIn = some x ∧ ItemsOf P fs [] xs
  | f :: fs, v :: vs, (x, xs) => P f.shape v x ∧ ItemsOf P fs vs xs

theorem standIns_eq_ok {P : (s : σ) → α → V s → Prop} {label : String} {index : Nat}
    {fs : List (Field V)} {xs : Values V fs} :
    Values.standIns label index fs = .ok xs ↔ ItemsOf P fs [] xs := by
  induction fs generalizing index with
  | nil => exact ⟨fun _ => rfl, fun _ => rfl⟩
  | cons f fs ih =>
      obtain ⟨x, xs⟩ := xs
      rw [Values.standIns]
      constructor
      · intro h
        split at h
        · rename_i y hy
          obtain ⟨ys, hys, h⟩ := map_eq_ok.mp h
          obtain ⟨rfl, rfl⟩ := Prod.mk.inj h
          exact ⟨hy, ih.mp hys⟩
        · cases h
      · rintro ⟨hx, hxs⟩
        rw [hx]
        exact map_eq_ok.mpr ⟨xs, ih.mpr hxs, rfl⟩

theorem ItemsOf.imp {P : (s : σ) → α → V s → Prop} {Q : (s : σ) → α → V s → Prop}
    {fs : List (Field V)} {vs : List α} {xs : Values V fs}
    (h : ∀ f ∈ fs, ∀ v ∈ vs, ∀ x, P f.shape v x → Q f.shape v x) (hxs : ItemsOf P fs vs xs) :
    ItemsOf Q fs vs xs := by
  induction fs generalizing vs with
  | nil => exact hxs
  | cons f fs ih =>
      obtain ⟨x, xs⟩ := xs
      cases vs with
      | nil =>
          refine ⟨hxs.1, ih (fun g _ v hv => nomatch hv) hxs.2⟩
      | cons v vs =>
          refine ⟨h f List.mem_cons_self v List.mem_cons_self x hxs.1, ih ?_ hxs.2⟩
          exact fun g hg w hw => h g (List.mem_cons_of_mem f hg) w (List.mem_cons_of_mem v hw)

/-- There is no value that no field takes. -/
theorem ItemsOf.length_le {P : (s : σ) → α → V s → Prop} {fs : List (Field V)} {vs : List α}
    {xs : Values V fs} (hxs : ItemsOf P fs vs xs) : vs.length ≤ fs.length := by
  induction fs generalizing vs with
  | nil =>
      obtain rfl : vs = [] := hxs
      exact Nat.le_refl _
  | cons f fs ih =>
      obtain ⟨x, xs⟩ := xs
      cases vs with
      | nil => exact Nat.zero_le _
      | cons v vs => exact Nat.succ_le_succ (ih hxs.2)

/-- What the field at a position takes. -/
theorem ItemsOf.exists_entry {P : (s : σ) → α → V s → Prop} {fs : List (Field V)} {vs : List α}
    {xs : Values V fs} (hxs : ItemsOf P fs vs xs) {i : Nat} {f : Field V} {v : α}
    (hf : fs[i]? = some f) (hv : vs[i]? = some v) :
    ∃ x, ⟨f, x⟩ ∈ Values.entries fs xs ∧ P f.shape v x := by
  induction fs generalizing vs i with
  | nil => exact nomatch hf
  | cons g fs ih =>
      obtain ⟨x, xs⟩ := xs
      cases vs with
      | nil => exact nomatch hv
      | cons w vs =>
          cases i with
          | zero =>
              obtain rfl := Option.some.inj hf
              obtain rfl := Option.some.inj hv
              exact ⟨x, List.mem_cons_self, hxs.1⟩
          | succ i =>
              obtain ⟨y, hy, hfield⟩ := ih hxs.2 hf hv
              exact ⟨y, List.mem_cons_of_mem _ hy, hfield⟩

/-- Another value at one position, if the field there takes it as well. -/
theorem ItemsOf.replace {P : (s : σ) → α → V s → Prop} {fs : List (Field V)} {before after : List α}
    {v w : α} {xs : Values V fs} {f : Field V} (hf : fs[before.length]? = some f)
    (h : ∀ x, P f.shape v x → P f.shape w x) (hxs : ItemsOf P fs (before ++ v :: after) xs) :
    ItemsOf P fs (before ++ w :: after) xs := by
  induction before generalizing fs with
  | nil =>
      cases fs with
      | nil => exact nomatch hf
      | cons g fs =>
          obtain ⟨x, xs⟩ := xs
          obtain rfl := Option.some.inj hf
          exact ⟨h x hxs.1, hxs.2⟩
  | cons first before ih =>
      cases fs with
      | nil => exact nomatch hf
      | cons g fs =>
          obtain ⟨x, xs⟩ := xs
          exact ⟨hxs.1, ih hf hxs.2⟩

/-- Another value at one position, if the field there takes anything of it. -/
theorem ItemsOf.exists_replaced {P : (s : σ) → α → V s → Prop} {fs : List (Field V)}
    {before after : List α} {v w : α} {xs : Values V fs} {f : Field V}
    (hf : fs[before.length]? = some f) {y : V f.shape} (hy : P f.shape w y)
    (hxs : ItemsOf P fs (before ++ v :: after) xs) :
    ∃ ys, ItemsOf P fs (before ++ w :: after) ys := by
  induction before generalizing fs with
  | nil =>
      cases fs with
      | nil => exact nomatch hf
      | cons g fs =>
          obtain ⟨x, xs⟩ := xs
          obtain rfl := Option.some.inj hf
          exact ⟨(y, xs), hy, hxs.2⟩
  | cons first before ih =>
      cases fs with
      | nil => exact nomatch hf
      | cons g fs =>
          obtain ⟨x, xs⟩ := xs
          obtain ⟨ys, hys⟩ := ih hf hxs.2
          exact ⟨(x, ys), hxs.1, hys⟩

end CaskLint.Record
