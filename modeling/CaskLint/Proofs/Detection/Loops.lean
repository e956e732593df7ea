import CaskLint.Proofs.Detection.Exactness
import CaskLint.Proofs.Stanza.Statements
import CaskLint.Worklist

/-!
# What the stacks give is what the recursions give

  A loop over a stack is told by what it keeps: what has been found, together with what the items
  on the stack still have to give, is the same after every step (**`drain_eq`**).

* **`Manifest.select_eq`** — what is kept is the statements of the items on the stack, in order;
  a sequence that is put there last statement first comes out first statement first.
* **`Detector.mem_collect`** — what is kept is the set of names that the items declare.
* **`Detector.detect_eq`** — one set filled block by block has the names of all blocks, and where
  there is no conditional block there are no names, so that nothing is missed by not searching.
-/

namespace CaskLint

/-- What every step keeps is, when the stack has run empty, what it was in the beginning. -/
theorem drain_eq {α σ β : Type} {size : α → Nat} {step : σ → α → σ × List α}
    {smaller : ∀ found item, sizeAll size (step found item).2 < size item}
    (kept : σ → List α → β)
    (hstep : ∀ found item stack,
      kept (step found item).1 ((step found item).2.reverse ++ stack) = kept found (item :: stack))
    (found : σ) (stack : List α) :
    kept (drain size step smaller found stack) [] = kept found stack := by
  fun_induction drain size step smaller found stack with
  | case1 found => rfl
  | case2 found item stack ih => rw [ih, pushAll_eq, hstep]

/-! ## Statements -/

namespace Manifest

/-- The stanzas that were kept, and those among the statements on the stack. -/
def selected (stanzas : Array Stanza) (stack : List Node) : List Stanza :=
  stanzas.toList ++ (Node.flattenList stack).filterMap Stanza.known?

/-- The name is looked at before the receiver, and that makes no difference. -/
theorem known?_eq_ite (n : Node) :
    Stanza.known? n =
      if n.method?.any Vocabulary.isStanzaName then Stanza.ofNode? n else none := by
  rw [Stanza.known?]
  cases hn : n.invocation? with
  | none =>
      rw [Stanza.ofNode?_of_none hn]
      split <;> rfl
  | some call =>
      rw [Node.method?, hn]
      rcases Stanza.ofNode?_of_some hn with ⟨-, s, hs, hname, -⟩ | ⟨-, hs⟩
      · rw [hs, Option.filter_some, hname]
        rfl
      · rw [hs]
        split <;> rfl

/-- A statement that is no sequence is kept or passed over. -/
theorem selectStep_of_ne_begin {n : Node} (h : n.kind.name ≠ .begin) (stanzas : Array Stanza) :
    selectStep stanzas n = (stanzas ++ (Stanza.known? n).toArray, []) := by
  rw [selectStep, known?_eq_ite]
  split
  case h_1 children hkind =>
      rw [hkind] at h
      exact absurd rfl h
  case h_2 =>
      cases n.method?.any Vocabulary.isStanzaName with
      | false => simp
      | true => cases Stanza.ofNode? n <;> simp

theorem selected_step (stanzas : Array Stanza) (n : Node) (stack : List Node) :
    selected (selectStep stanzas n).1 ((selectStep stanzas n).2.reverse ++ stack) =
      selected stanzas (n :: stack) := by
  rw [selected, selected, Node.flattenList_eq_flatMap, Node.flattenList_eq_flatMap]
  rcases n.eq_begin_or_ne with ⟨children, span, rfl⟩ | hbegin
  · -- the statements of a sequence lie on the stack in the order that they have
    show stanzas.toList ++ ((children.reverse.reverse ++ stack).flatMap _).filterMap _ = _
    rw [List.reverse_reverse, List.flatMap_append, List.flatMap_cons,
      ← Node.flattenList_eq_flatMap children]
    rfl
  · rw [selectStep_of_ne_begin hbegin, List.flatMap_cons, Node.flatten_of_ne_begin hbegin,
      List.singleton_append, List.filterMap_cons]
    cases Stanza.known? n <;> simp

/-- **The loop selects the stanzas of the body.** -/
theorem select_eq (token : String) (body : List Node) : select token body = ofBody token body := by
  have hkept : selected (drain Node.size selectStep sizeAll_selectStep_lt #[] body) [] =
      selected #[] body :=
    drain_eq selected selected_step #[] body
  rw [selected, selected, Node.flattenList, List.filterMap_nil, List.append_nil] at hkept
  rw [select, ofBody, pushAll_eq, List.reverse_reverse, List.append_nil, hkept]
  rfl

end Manifest

/-! ## Names -/

namespace Detector

variable (d : Detector)

/-- A name that was found, or that an item on the stack declares. -/
def Known (name : String) (names : List String) (stack : List (Node × Context)) : Prop :=
  name ∈ names ∨ name ∈ stack.flatMap fun item => d.declared item.1 item.2

/-- A node adds the name that it declares itself and puts its children on the stack, unless it is a
    livecheck. -/
theorem collectStep_eq (names : List String) (n : Node) (context : Context) :
    d.collectStep names (n, context) =
      if d.isLivecheck n then (names, [])
      else (d.declaredHere n context ∪ names,
        n.children.reverse.map fun child => (child, n.kind.contextBelow context)) := by
  rw [collectStep, isLivecheck, declaredHere, Node.method?]
  cases n.invocation? with
  | none => rfl
  | some call =>
      by_cases hlivecheck : call.method = d.livecheck
      · simp [hlivecheck]
      · cases context <;> cases hname : d.isConditional call.method <;> simp [hlivecheck, hname]

theorem known_step (name : String) (names : List String) (item : Node × Context)
    (stack : List (Node × Context)) :
    d.Known name (d.collectStep names item).1 ((d.collectStep names item).2.reverse ++ stack) =
      d.Known name names (item :: stack) := by
  obtain ⟨n, context⟩ := item
  rw [Known, Known, collectStep_eq, List.flatMap_cons, declared_eq]
  split
  case isTrue => rfl
  case isFalse =>
      -- what the node declares is now found, and what its children declare is on the stack
      rw [List.map_reverse, List.reverse_reverse, List.flatMap_append, List.flatMap_map]
      simp only [List.mem_union_iff, List.mem_append, or_assoc, or_left_comm]

/-- **The loop collects what a tree declares.** -/
theorem mem_collect {name : String} {names : List String} {root : Node} :
    name ∈ d.collect names root ↔ name ∈ names ∨ name ∈ d.declared root .ordinary := by
  have hkept : d.Known name (d.collect names root) [] = d.Known name names [(root, .ordinary)] :=
    drain_eq (d.Known name) (d.known_step name) names [(root, .ordinary)]
  rw [Known, Known] at hkept
  simpa using hkept

theorem mem_collectAll {name : String} {stanzas : List Stanza} :
    name ∈ d.collectAll stanzas ↔
      ∃ s ∈ stanzas, s.block?.isSome = true ∧ name ∈ d.declared s.node .ordinary := by
  -- the names of the stanzas that are still to come are added to those that are there
  have hfold : ∀ names : List String,
      name ∈ stanzas.foldl
          (fun names s => if s.block?.isNone then names else d.collect names s.node) names ↔
        name ∈ names ∨
          ∃ s ∈ stanzas, s.block?.isSome = true ∧ name ∈ d.declared s.node .ordinary := by
    induction stanzas with
    | nil => simp
    | cons s stanzas ih =>
        intro names
        rw [List.foldl_cons, ih]
        cases hblock : s.block? with
        | none => simp [hblock]
        | some block => simp [hblock, mem_collect, or_assoc]
  rw [collectAll, hfold]
  simp

/-- The set for the conditional blocks of a manifest has the names declared in them. -/
theorem mem_collectAll_filter {name : String} {m : Manifest} :
    name ∈ d.collectAll (m.stanzas.filter (d.isConditional ·.name)) ↔
      name ∈ d.declaredInBlocks m := by
  rw [mem_collectAll, declaredInBlocks, List.mem_flatMap]
  simp only [List.mem_filter, and_assoc, declaredByStanza]
  refine exists_congr fun s => and_congr_right fun _ => ?_
  cases d.isConditional s.name <;> cases s.block?.isSome <;> simp

/-- What is found of a name is the name. -/
theorem find?_beq (names : List String) (name : String) :
    names.find? (· == name) = if name ∈ names then some name else none := by
  split
  case isTrue h =>
      have hsome : (names.find? (· == name)).isSome = true :=
        List.find?_isSome.mpr ⟨name, h, beq_self_eq_true name⟩
      obtain ⟨other, hother⟩ := Option.isSome_iff_exists.mp hsome
      have heq : other = name := beq_iff_eq.mp (List.find?_some (p := (· == name)) hother)
      rw [hother, heq]
  case isFalse h =>
      refine List.find?_eq_none.mpr fun other hother heq => h ?_
      exact beq_iff_eq.mp heq ▸ hother

/-- **The search finds what there is to find**, and each conflict with the name of its stanza. -/
theorem detect_eq (m : Manifest) : d.detect m = (d.findings m).map fun f => (f, f.name) := by
  have hfound : ∀ name,
      (d.collectAll (m.stanzas.filter (d.isConditional ·.name))).find? (· == name) =
        if name ∈ d.declaredInBlocks m then some name else none := by
    intro name
    rw [find?_beq]
    simp only [mem_collectAll_filter]
  rw [detect, findings]
  dsimp only
  split
  case isTrue hnone =>
      -- without a conditional block there is no declared name, and so no conflict
      have hblocks : ∀ s ∈ m.stanzas, d.isConditional s.name = false := by
        simpa [List.filter_eq_nil_iff] using hnone
      have hnames : d.declaredInBlocks m = [] := by
        refine List.flatMap_eq_nil_iff.mpr fun s hs => ?_
        rw [declaredByStanza, hblocks s hs]
        rfl
      simp [hnames, conflicts]
  case isFalse =>
      simp only [hfound]
      rw [List.map_map, ← List.filterMap_eq_map, List.filterMap_filter, List.filterMap_filter]
      refine List.filterMap_congr fun item _ => ?_
      obtain ⟨s, i⟩ := item
      cases hconditional : d.isConditional s.name <;>
        by_cases hname : s.name ∈ d.declaredInBlocks m <;>
        simp [conflicts, hconditional, hname, Finding.name]

end Detector

end CaskLint
