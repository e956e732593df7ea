import CaskLint.Proofs.Fallible
import CaskLint.Record.Fields

/-!
# Reading the members of a record

  Whatever the members are read from, a record is read by assigning them one after the other and
  then completing it. Two views of that:

* **`ofMembers`** — the whole of it, when the members come in the order of the fields. Then
  each field takes its own member (`ofMembers_given`) or its stand-in (`ofMembers_omitted`).
* **`Values.All`** — what holds of every value that is read and of every stand-in holds of
  every value of the record, in whatever order the members come.
-/

namespace CaskLint.Record

variable {σ : Type} {ε : Type} {V : σ → Type}

/-! ## Members in the order of the fields -/

section

variable {α : Type} (fail : Mismatch → ε) (read : (s : σ) → α → Except ε (V s))

/-- Reads members one after the other; those that no field has are passed over. -/
def Slots.assignAll (fs : List (Field V)) (slots : Slots V fs) :
    List (String × α) → Except ε (Slots V fs)
  | [] => .ok slots
  | (name, v) :: ms =>
    match Slots.assign? fail name (fun s => read s v) fs slots with
    | none => Slots.assignAll fs slots ms
    | some slots => do Slots.assignAll fs (← slots) ms

/-- Reads a record from its members. -/
def ofMembers (fs : List (Field V)) (ms : List (String × α)) : Except ε (Values V fs) := do
  let slots ← Slots.assignAll fail read fs (Slots.empty fs) ms
  (Slots.complete fs slots).mapError fail

variable {fail read} {f : Field V} {fs : List (Field V)} {ms : List (String × α)}

theorem Slots.assignAll_of_none {slots : Slots V fs} {name : String} {v : α}
    (h : Slots.assign? fail name (fun s => read s v) fs slots = none) :
    Slots.assignAll fail read fs slots ((name, v) :: ms) =
      Slots.assignAll fail read fs slots ms := by
  rw [Slots.assignAll, h]

theorem Slots.assignAll_of_some {slots : Slots V fs} {name : String} {v : α}
    {assigned : Except ε (Slots V fs)}
    (h : Slots.assign? fail name (fun s => read s v) fs slots = some assigned) :
    Slots.assignAll fail read fs slots ((name, v) :: ms) =
      assigned >>= fun slots => Slots.assignAll fail read fs slots ms := by
  rw [Slots.assignAll, h]

theorem Slots.assign?_of_ne {name : String} {read : (s : σ) → Except ε (V s)} (h : f.name ≠ name)
    (slot : Option (V f.shape)) (slots : Slots V fs) :
    Slots.assign? fail name read (f :: fs) (slot, slots) =
      (Slots.assign? fail name read fs slots).map (Except.map fun slots => (slot, slots)) :=
  if_neg h

/-- A member with another name leaves the slot of the first field alone. -/
theorem Slots.assign?_of_rest {name : String} {read : (s : σ) → Except ε (V s)}
    (h : f.name ≠ name) {slots : Slots V fs} {assigned : Option (Except ε (Slots V fs))}
    (hrest : Slots.assign? fail name read fs slots = assigned) (slot : Option (V f.shape)) :
    Slots.assign? fail name read (f :: fs) (slot, slots) =
      assigned.map (Except.map fun slots => (slot, slots)) := by
  rw [Slots.assign?_of_ne h, hrest]

theorem Slots.assign?_of_eq {name : String} {read : (s : σ) → Except ε (V s)} (h : f.name = name)
    (slot : Option (V f.shape)) (slots : Slots V fs) :
    Slots.assign? fail name read (f :: fs) (slot, slots) = some (match slot with
      | some _ => .error (fail (.duplicateMember name))
      | none => (read f.shape).map fun v => (some v, slots)) :=
  if_pos h

/-- Members of other names leave a field as it is. -/
theorem Slots.assignAll_frame (h : ∀ m ∈ ms, f.name ≠ m.1) (slot : Option (V f.shape))
    (slots : Slots V fs) :
    Slots.assignAll fail read (f :: fs) (slot, slots) ms =
      (fun slots => (slot, slots)) <$> Slots.assignAll fail read fs slots ms := by
  induction ms generalizing slots with
  | nil => rfl
  | cons m ms ih =>
      obtain ⟨name, v⟩ := m
      obtain ⟨hname, hms⟩ := List.forall_mem_cons.mp h
      -- the first field does not have this name, so assigning looks past it
      cases hassign : Slots.assign? fail name (fun s => read s v) fs slots with
      | none =>
          rw [Slots.assignAll_of_none hassign, ← ih hms slots]
          exact Slots.assignAll_of_none (Slots.assign?_of_rest hname hassign slot)
      | some assigned =>
          rw [Slots.assignAll_of_some hassign]
          refine (Slots.assignAll_of_some (Slots.assign?_of_rest hname hassign slot)).trans ?_
          cases assigned with
          | error e => rfl
          | ok slots' => exact ih hms slots'

/-- The first field takes the first member if that has its name and no later one does. -/
theorem ofMembers_given (h : ∀ m ∈ ms, f.name ≠ m.1) (v : α) :
    ofMembers fail read (f :: fs) ((f.name, v) :: ms) = do
      let x ← read f.shape v
      let xs ← ofMembers fail read fs ms
      return (x, xs) := by
  have hassign : Slots.assign? fail f.name (fun s => read s v) (f :: fs) (Slots.empty (f :: fs)) =
      some ((read f.shape v).map fun x => (some x, Slots.empty fs)) :=
    Slots.assign?_of_eq rfl none (Slots.empty fs)
  rw [ofMembers, ofMembers, Slots.assignAll_of_some hassign]
  cases read f.shape v with
  | error e => rfl
  | ok x =>
      -- the first slot is filled now and no later member has its name
      show (Slots.assignAll fail read (f :: fs) (some x, Slots.empty fs) ms >>= _) = _
      rw [Slots.assignAll_frame h]
      cases Slots.assignAll fail read fs (Slots.empty fs) ms with
      | error e => rfl
      | ok slots =>
          show ((Slots.complete fs slots).map fun vs => (x, vs)).mapError fail =
            (do return (x, ← (Slots.complete fs slots).mapError fail))
          cases Slots.complete fs slots <;> rfl

/-- The first field takes its stand-in if no member has its name. -/
theorem ofMembers_omitted (h : ∀ m ∈ ms, f.name ≠ m.1) {x : V f.shape} (hx : f.standIn = some x) :
    ofMembers fail read (f :: fs) ms = do
      let xs ← ofMembers fail read fs ms
      return (x, xs) := by
  rw [ofMembers, ofMembers, Slots.empty, Slots.assignAll_frame h]
  cases Slots.assignAll fail read fs (Slots.empty fs) ms with
  | error e => rfl
  | ok slots =>
      show (Slots.complete (f :: fs) (none, slots)).mapError fail =
        (do return (x, ← (Slots.complete fs slots).mapError fail))
      rw [Slots.complete, hx]
      cases Slots.complete fs slots <;> rfl

/-- Exactly a name that no field has is left to the caller. -/
theorem Slots.assign?_eq_none {name : String} {read : (s : σ) → Except ε (V s)}
    {slots : Slots V fs} :
    Slots.assign? fail name read fs slots = none ↔ ∀ f ∈ fs, f.name ≠ name := by
  induction fs with
  | nil => exact ⟨fun _ => List.forall_mem_nil _, fun _ => rfl⟩
  | cons f fs ih =>
      obtain ⟨slot, slots⟩ := slots
      rw [List.forall_mem_cons]
      by_cases hname : f.name = name
      · rw [Slots.assign?_of_eq hname]
        exact ⟨fun h => (nomatch h), fun h => absurd hname h.1⟩
      · rw [Slots.assign?_of_ne hname]
        refine Option.map_eq_none_iff.trans (ih.trans ?_)
        exact ⟨fun h => ⟨hname, h⟩, And.right⟩

/-- **What one member does**: it has no field, its field is set, or its value sets its field. Which
    of these it is and where the value is put is not decided by how it is read. -/
theorem Slots.assign?_cases (fail : Mismatch → ε) (name : String) (slots : Slots V fs) :
    (∀ read, Slots.assign? fail name read fs slots = none) ∨
      (∀ read, Slots.assign? fail name read fs slots =
        some (.error (fail (.duplicateMember name)))) ∨
      ∃ f ∈ fs, f.name = name ∧ ∃ put : V f.shape → Slots V fs, ∀ read,
        Slots.assign? fail name read fs slots = some ((read f.shape).map put) := by
  induction fs with
  | nil => exact Or.inl fun _ => rfl
  | cons f fs ih =>
      obtain ⟨slot, slots⟩ := slots
      by_cases hname : f.name = name
      · refine Or.inr ?_
        cases slot with
        | some x => exact Or.inl fun _ => Slots.assign?_of_eq hname _ _
        | none =>
            refine Or.inr ⟨f, List.mem_cons_self, hname, fun x => (some x, slots), fun read => ?_⟩
            exact Slots.assign?_of_eq hname _ _
      · have hrest : ∀ {assigned} read, Slots.assign? fail name read fs slots = assigned →
            Slots.assign? fail name read (f :: fs) (slot, slots) =
              assigned.map (Except.map fun slots => (slot, slots)) :=
          fun _ h => Slots.assign?_of_rest hname h slot
        rcases ih slots with hnone | hset | ⟨g, hg, hgname, put, hput⟩
        · exact Or.inl fun read => hrest read (hnone read)
        · exact Or.inr (Or.inl fun read => hrest read (hset read))
        · refine Or.inr (Or.inr ⟨g, List.mem_cons_of_mem f hg, hgname, fun x => (slot, put x), ?_⟩)
          intro read
          refine (hrest read (hput read)).trans ?_
          cases read g.shape <;> rfl

/-- A member that no field has does not matter. -/
theorem ofMembers_unknown {name : String} (h : ∀ f ∈ fs, f.name ≠ name) (v : α) :
    ofMembers fail read fs ((name, v) :: ms) = ofMembers fail read fs ms := by
  rw [ofMembers, Slots.assignAll_of_none (Slots.assign?_eq_none.mpr h), ofMembers]

/-! ### What such a record gives -/

variable {condition rest : Bool} {v : α} {x : V f.shape} {xs : Values V fs}

theorem toOption_ofMembers_given (h : ∀ m ∈ ms, f.name ≠ m.1)
    (hv : (read f.shape v).toOption = someIf condition x)
    (hms : (ofMembers fail read fs ms).toOption = someIf rest xs) :
    (ofMembers fail read (f :: fs) ((f.name, v) :: ms)).toOption =
      someIf (condition && rest) (x, xs) := by
  rw [ofMembers_given h]
  exact toOption_bind_someIf hv (toOption_map_someIf (fun xs => (x, xs)) hms)

theorem toOption_ofMembers_omitted (h : ∀ m ∈ ms, f.name ≠ m.1) (hx : f.standIn = some x)
    (hms : (ofMembers fail read fs ms).toOption = someIf rest xs) :
    (ofMembers fail read (f :: fs) ms).toOption = someIf rest (x, xs) := by
  rw [ofMembers_omitted h hx]
  exact toOption_map_someIf (fun xs => (x, xs)) hms

/-- The last field, given by the last member. -/
theorem toOption_ofMembers_last (hv : (read f.shape v).toOption = someIf condition x) :
    (ofMembers fail read [f] [(f.name, v)]).toOption = someIf condition (x, ()) := by
  have hnil : (ofMembers fail read ([] : List (Field V)) ([] : List (String × α))).toOption =
      someIf true () := rfl
  have h := toOption_ofMembers_given (by simp) hv hnil
  rwa [Bool.and_true] at h

end

/-! ## What holds of all values of a record -/

section

variable (P : (s : σ) → V s → Prop)

/-- Every value of a record is as `P` says. -/
def Values.All : (fs : List (Field V)) → Values V fs → Prop
  | [], _ => True
  | f :: fs, (v, vs) => P f.shape v ∧ Values.All fs vs

/-- Every value that has been read so far is as `P` says. -/
def Slots.All : (fs : List (Field V)) → Slots V fs → Prop
  | [], _ => True
  | f :: fs, (slot, slots) => (∀ v, slot = some v → P f.shape v) ∧ Slots.All fs slots

/-- Every stand-in is as `P` says. -/
def StandInsAll (fs : List (Field V)) : Prop :=
  ∀ f ∈ fs, ∀ v, f.standIn = some v → P f.shape v

variable {P}

theorem standInsAll_nil : StandInsAll P [] := fun _ h => nomatch h

theorem standInsAll_cons {f : Field V} {fs : List (Field V)}
    (hf : ∀ v, f.standIn = some v → P f.shape v) (hfs : StandInsAll P fs) :
    StandInsAll P (f :: fs) :=
  List.forall_mem_cons.mpr ⟨hf, hfs⟩

theorem Slots.all_empty (fs : List (Field V)) : Slots.All P fs (Slots.empty fs) := by
  induction fs with
  | nil => trivial
  | cons f fs ih => exact ⟨fun v h => (nomatch h), ih⟩

/-- One more member keeps what holds of all of them. -/
theorem Slots.all_assign? {fail : Mismatch → ε} {name : String}
    {read : (s : σ) → Except ε (V s)} (hread : ∀ s v, read s = .ok v → P s v)
    {fs : List (Field V)} {slots slots' : Slots V fs} (hslots : Slots.All P fs slots)
    (h : Slots.assign? fail name read fs slots = some (.ok slots')) : Slots.All P fs slots' := by
  induction fs with
  | nil => exact nomatch h
  | cons f fs ih =>
      obtain ⟨slot, slots⟩ := slots
      obtain ⟨hslot, hrest⟩ := hslots
      by_cases hname : f.name = name
      · -- the member is that of the first field, whose slot was empty
        have hfirst := (Slots.assign?_of_eq hname slot slots).symm.trans h
        cases slot with
        | some v => exact nomatch hfirst
        | none =>
            obtain ⟨v, hv, rfl⟩ := map_eq_ok.mp (Option.some.inj hfirst)
            refine ⟨?_, hrest⟩
            intro w hw
            obtain rfl := Option.some.inj hw
            exact hread f.shape v hv
      · -- the member is that of a later field, if of any
        have hlater := (Slots.assign?_of_ne hname slot slots).symm.trans h
        obtain ⟨assigned, hassigned, hmap⟩ := Option.map_eq_some_iff.mp hlater
        obtain ⟨slots'', rfl, rfl⟩ := map_eq_ok.mp hmap
        exact ⟨hslot, ih hrest hassigned⟩

theorem Slots.all_complete {fs : List (Field V)} {slots : Slots V fs} {values : Values V fs}
    (hstandIns : StandInsAll P fs) (hslots : Slots.All P fs slots)
    (h : Slots.complete fs slots = .ok values) : Values.All P fs values := by
  induction fs with
  | nil => trivial
  | cons f fs ih =>
      obtain ⟨slot, slots⟩ := slots
      obtain ⟨hslot, hrest⟩ := hslots
      obtain ⟨hf, hfs⟩ := List.forall_mem_cons.mp hstandIns
      rw [Slots.complete] at h
      split at h
      · rename_i v hv
        obtain ⟨vs, hvs, rfl⟩ := map_eq_ok.mp h
        refine ⟨?_, ih hfs hrest hvs⟩
        cases slot with
        | some _ => exact hslot v hv
        | none => exact hf v hv
      · exact nomatch h

theorem Values.all_standIns {label : String} {index : Nat} {fs : List (Field V)}
    {values : Values V fs} (hstandIns : StandInsAll P fs)
    (h : Values.standIns label index fs = .ok values) : Values.All P fs values := by
  induction fs generalizing index with
  | nil => trivial
  | cons f fs ih =>
      obtain ⟨hf, hfs⟩ := List.forall_mem_cons.mp hstandIns
      rw [Values.standIns] at h
      split at h
      · rename_i v hv
        obtain ⟨vs, hvs, rfl⟩ := map_eq_ok.mp h
        exact ⟨hf v hv, ih hfs hvs⟩
      · exact nomatch h

end

end CaskLint.Record
