import CaskLint.Detector
import Mathlib.Data.List.Basic

/-!
# What the detector finds

  The detector walks down from a conditional block and hands a **`Context`** to the children of
  every node. Here the same names are described without a walk, by the ways down the tree:

* **`Node.Path`** — a way from a node to a node below it, with the nodes that are passed.
* **`Detector.Declares`** — some path ends at an invocation of the name, meets no livecheck
  invocation, and does not end in code put straight into an interpolated string.

  The heart is `mem_declared`: the context in which a node is looked at depends on the two nodes
  above it and on nothing else (`contextAfter_eq_embedded`), so the walk and the paths agree.
  **`findings_exact`** then says which stanzas are found, and in which order.
-/

namespace CaskLint

/-! ## Ways down a tree -/

/-- A child is smaller than its parent, whatever the kind of the parent is. -/
theorem Node.sizeOf_lt_of_mem_children {n c : Node} (h : c ∈ n.children) :
    sizeOf c < sizeOf n := by
  obtain ⟨kind, span⟩ := n
  -- children hang from the kind, so it is enough to stay below that
  have hkind : sizeOf kind < sizeOf (Node.mk kind span) := by
    simp only [Node.mk.sizeOf_spec]
    omega
  refine Nat.lt_trans ?_ hkind
  -- the operands of an invocation, which a block call has as well
  have operand : ∀ {call : Invocation}, c ∈ call.operands → sizeOf c < sizeOf call := by
    rintro ⟨receiver, method, args⟩ hc
    rcases List.mem_append.mp hc with hr | ha
    · obtain rfl : receiver = some c := Option.mem_toList.mp hr
      simp only [Invocation.mk.sizeOf_spec, Option.some.sizeOf_spec]
      omega
    · have : sizeOf c < sizeOf args := List.sizeOf_lt_of_mem ha
      simp only [Invocation.mk.sizeOf_spec]
      omega
  cases kind with
  | send call =>
      have := operand h
      simp only [Kind.send.sizeOf_spec]
      omega
  | block b =>
      obtain ⟨call, params, body⟩ := b
      simp only [Kind.block.sizeOf_spec, BlockCall.mk.sizeOf_spec]
      rcases List.mem_append.mp h with hc | hb
      · have : sizeOf c < sizeOf call := operand hc
        omega
      · obtain rfl : body = some c := Option.mem_toList.mp hb
        simp only [Option.some.sizeOf_spec]
        omega
  | literal value => exact nomatch h
  | pair key value =>
      simp only [Kind.pair.sizeOf_spec]
      have hc : c = key ∨ c = value := by simpa using (show c ∈ [key, value] from h)
      rcases hc with rfl | rfl <;> omega
  | begin children | interpolation children | array children | hash children =>
      have := List.sizeOf_lt_of_mem (show c ∈ children from h)
      simp only [Kind.begin.sizeOf_spec, Kind.interpolation.sizeOf_spec, Kind.array.sizeOf_spec,
        Kind.hash.sizeOf_spec]
      omega
  | other label children =>
      have := List.sizeOf_lt_of_mem (show c ∈ children from h)
      simp only [Kind.other.sizeOf_spec]
      omega

/-- What holds of a node as soon as it holds of its children holds of every node. -/
theorem Node.induction_on_children {P : Node → Prop}
    (step : ∀ n : Node, (∀ c ∈ n.children, P c) → P n) (n : Node) : P n :=
  step n fun c _ => Node.induction_on_children step c
termination_by sizeOf n
decreasing_by exact Node.sizeOf_lt_of_mem_children ‹_›

/-- `Path n above v` is a way from `n` to `v` through children; `above` are the nodes that are
    passed on it, `n` first and `v` left out. -/
inductive Node.Path : Node → List Node → Node → Prop where
  | stay (n : Node) : Path n [] n
  | down {n c v : Node} {above : List Node} :
      c ∈ n.children → Path c above v → Path n (n :: above) v

/-- A path stays where it starts or goes down to a child first. -/
theorem Node.path_iff {n v : Node} {above : List Node} :
    Node.Path n above v ↔
      (above = [] ∧ v = n) ∨
        ∃ c ∈ n.children, ∃ below, above = n :: below ∧ Node.Path c below v := by
  constructor
  · intro h
    cases h with
    | stay => exact Or.inl ⟨rfl, rfl⟩
    | down hc h => exact Or.inr ⟨_, hc, _, rfl, h⟩
  · rintro (⟨rfl, rfl⟩ | ⟨c, hc, below, rfl, h⟩)
    · exact .stay _
    · exact .down hc h

/-! ## The context at the end of a path -/

/-- The nodes passed end with an interpolated string and the wrapper around code in it. -/
def Node.EndsInCode (above : List Node) : Prop :=
  ∃ before parts children span₁ span₂,
    above = before ++ [⟨.interpolation parts, span₁⟩, ⟨.begin children, span₂⟩]

/-- The context that is left after these nodes have been passed. -/
def contextAfter (context : Context) (above : List Node) : Context :=
  above.foldl (fun context n => n.kind.contextBelow context) context

theorem contextAfter_concat (context : Context) (above : List Node) (n : Node) :
    contextAfter context (above ++ [n]) = n.kind.contextBelow (contextAfter context above) := by
  rw [contextAfter, List.foldl_append]
  rfl

/-- Right below an interpolated string, and nowhere else, the context is that of one. -/
theorem contextAfter_eq_interpolation {above : List Node} :
    contextAfter .ordinary above = .interpolation ↔
      ∃ before parts span, above = before ++ [⟨.interpolation parts, span⟩] := by
  constructor
  · intro h
    rcases List.eq_nil_or_concat' above with rfl | ⟨before, ⟨kind, span⟩, rfl⟩
    · exact nomatch h
    · rw [contextAfter_concat] at h
      cases kind with
      | interpolation parts => exact ⟨before, parts, span, rfl⟩
      | begin children =>
          -- a sequence hands on one of the other two contexts, whatever it stands in
          cases hc : contextAfter .ordinary before <;> rw [hc] at h <;> exact nomatch h
      | _ => exact nomatch h
  · rintro ⟨before, parts, span, rfl⟩
    rw [contextAfter_concat]
    rfl

/-- The context is that of embedded code where the last two nodes say so. -/
theorem contextAfter_eq_embedded {above : List Node} :
    contextAfter .ordinary above = .embedded ↔ Node.EndsInCode above := by
  constructor
  · intro h
    rcases List.eq_nil_or_concat' above with rfl | ⟨before, ⟨kind, span⟩, rfl⟩
    · exact nomatch h
    · rw [contextAfter_concat] at h
      cases kind with
      | begin children =>
          -- only within an interpolated string does a sequence mark embedded code
          have hbefore : contextAfter .ordinary before = .interpolation := by
            cases hc : contextAfter .ordinary before with
            | interpolation => rfl
            | embedded | ordinary => rw [hc] at h; exact nomatch h
          obtain ⟨before, parts, span₁, rfl⟩ := contextAfter_eq_interpolation.mp hbefore
          exact ⟨before, parts, children, span₁, span, by rw [List.append_assoc]; rfl⟩
      | _ => exact nomatch h
  · rintro ⟨before, parts, children, span₁, span₂, rfl⟩
    have hbefore := contextAfter_eq_interpolation.mpr ⟨before, parts, span₁, rfl⟩
    rw [List.append_cons, contextAfter_concat, hbefore]
    rfl

/-! ## Declared names -/

namespace Detector

variable (d : Detector)

/-- Some path from the root ends at an invocation of the name. No node of the path, its two ends
    included, invokes livecheck, and the invocation is not code put straight into a string. -/
def Declares (root : Node) (name : String) : Prop :=
  ∃ above v, Node.Path root above v ∧ v.method? = some name ∧
    (∀ n ∈ above ++ [v], n.method? ≠ some d.livecheck) ∧ ¬ Node.EndsInCode above

theorem isLivecheck_eq_false {n : Node} :
    d.isLivecheck n = false ↔ n.method? ≠ some d.livecheck := by
  rw [isLivecheck, beq_eq_false_iff_ne]

theorem isConditional_eq_true {name : String} :
    d.isConditional name = true ↔ name ∈ d.conditional := by
  rw [isConditional, List.contains_iff_mem]

theorem isConditional_eq_false {name : String} :
    d.isConditional name = false ↔ name ∉ d.conditional := by
  rw [← isConditional_eq_true, Bool.not_eq_true]

theorem mem_declaredHere {n : Node} {context : Context} {name : String} :
    name ∈ d.declaredHere n context ↔
      n.method? = some name ∧ context ≠ .embedded ∧ name ∉ d.conditional := by
  rw [declaredHere, ← isConditional_eq_false]
  cases hm : n.method? with
  | none => simp
  | some other =>
      dsimp only
      constructor
      · intro h
        split at h
        · exact nomatch h
        · obtain rfl := List.mem_singleton.mp h
          simp_all
      · rintro ⟨h, hc, hn⟩
        obtain rfl := Option.some.inj h
        simp [hc, hn]

/-- One step down: a name is declared by a node itself or by a child in the context below. -/
theorem mem_declared_step {n : Node} {context : Context} {name : String} :
    name ∈ d.declared n context ↔
      n.method? ≠ some d.livecheck ∧
        ((n.method? = some name ∧ context ≠ .embedded ∧ name ∉ d.conditional) ∨
          ∃ c ∈ n.children, name ∈ d.declared c (n.kind.contextBelow context)) := by
  rw [declared_eq, ← isLivecheck_eq_false]
  cases d.isLivecheck n with
  | true => simp
  | false => simp [mem_declaredHere]

/-- The names that the walk collects are those that the paths declare. -/
theorem mem_declared {name : String} (n : Node) (context : Context) :
    name ∈ d.declared n context ↔
      name ∉ d.conditional ∧ ∃ above v, Node.Path n above v ∧ v.method? = some name ∧
        (∀ m ∈ above ++ [v], m.method? ≠ some d.livecheck) ∧
        contextAfter context above ≠ .embedded := by
  induction n using Node.induction_on_children generalizing context with
  | step n ih =>
      rw [mem_declared_step]
      constructor
      · rintro ⟨hn, ⟨hm, hc, hname⟩ | ⟨c, hc, hbelow⟩⟩
        · -- declared by the node itself: the path stays
          exact ⟨hname, [], n, .stay n, hm, by simpa using hn, hc⟩
        · -- declared below: the path of the child, with the node passed first
          obtain ⟨hname, above, v, hp, hm, hl, hctx⟩ := (ih c hc _).mp hbelow
          refine ⟨hname, n :: above, v, .down hc hp, hm, ?_, hctx⟩
          exact List.forall_mem_cons.mpr ⟨hn, hl⟩
      · rintro ⟨hname, above, v, hp, hm, hl, hctx⟩
        rcases Node.path_iff.mp hp with ⟨rfl, rfl⟩ | ⟨c, hc, below, rfl, hbelow⟩
        · exact ⟨hl v (by simp), Or.inl ⟨hm, hctx, hname⟩⟩
        · obtain ⟨hn, hl⟩ := List.forall_mem_cons.mp hl
          exact ⟨hn, Or.inr ⟨c, hc, (ih c hc _).mpr ⟨hname, below, v, hbelow, hm, hl, hctx⟩⟩⟩

/-- From the root of a conditional block on, the walk collects what the block declares. -/
theorem mem_declared_ordinary {root : Node} {name : String} :
    name ∈ d.declared root .ordinary ↔ name ∉ d.conditional ∧ d.Declares root name := by
  rw [mem_declared]
  simp only [Declares, ne_eq, contextAfter_eq_embedded]

theorem mem_declaredInBlocks {m : Manifest} {name : String} :
    name ∈ d.declaredInBlocks m ↔
      name ∉ d.conditional ∧ ∃ b ∈ m.stanzas,
        b.name ∈ d.conditional ∧ b.block?.isSome ∧ d.Declares b.node name := by
  -- what a single stanza contributes
  have hstanza : ∀ b : Stanza, name ∈ d.declaredByStanza b ↔
      (b.name ∈ d.conditional ∧ b.block?.isSome) ∧ name ∉ d.conditional ∧
        d.Declares b.node name := by
    intro b
    rw [declaredByStanza, ← mem_declared_ordinary, ← isConditional_eq_true, ← Bool.and_eq_true]
    split <;> simp_all
  rw [declaredInBlocks, List.mem_flatMap]
  simp only [hstanza]
  constructor
  · rintro ⟨b, hb, ⟨hc, hblock⟩, hname, hd⟩
    exact ⟨hname, b, hb, hc, hblock, hd⟩
  · rintro ⟨hname, b, hb, hc, hblock, hd⟩
    exact ⟨b, hb, ⟨hc, hblock⟩, hname, hd⟩

/-! ## Findings -/

/-- A stanza of the manifest is no conditional block itself and has a name that the contents of
    some conditional block declare. -/
def Conflict (m : Manifest) (s : Stanza) : Prop :=
  s.name ∉ d.conditional ∧ ∃ b ∈ m.stanzas,
    b.name ∈ d.conditional ∧ b.block?.isSome ∧ d.Declares b.node s.name

theorem conflicts_declaredInBlocks {m : Manifest} {s : Stanza} :
    d.conflicts (d.declaredInBlocks m) s = true ↔ d.Conflict m s := by
  rw [conflicts, Bool.and_eq_true, Bool.not_eq_true', isConditional_eq_false,
    List.contains_iff_mem, mem_declaredInBlocks, Conflict]
  exact ⟨fun h => ⟨h.1, h.2.2⟩, fun h => ⟨h.1, h.1, h.2⟩⟩

/-- The reported stanzas are those that conflict, in the order of the manifest. -/
theorem map_stanza_findings (m : Manifest) :
    (d.findings m).map Finding.stanza =
      m.stanzas.filter (d.conflicts (d.declaredInBlocks m)) := by
  rw [findings, List.map_map]
  -- the test looks at the stanza alone, so positions may be dropped before it
  generalize d.declaredInBlocks m = names
  calc ((m.stanzas.zipIdx.filter (d.conflicts names ∘ Prod.fst)).map Prod.fst)
      = (m.stanzas.zipIdx.map Prod.fst).filter (d.conflicts names) := List.filter_map.symm
    _ = m.stanzas.filter (d.conflicts names) := by rw [List.zipIdx_map_fst]

theorem map_position_findings_sublist (m : Manifest) :
    ((d.findings m).map Finding.position).Sublist (List.range m.stanzas.length) := by
  rw [findings, List.map_map, List.range_eq_range', ← List.zipIdx_map_snd 0 m.stanzas]
  exact (List.filter_sublist).map Prod.snd

/-- A finding sits in the manifest at its position. -/
theorem getElem?_of_mem_findings {m : Manifest} {f : Finding} (h : f ∈ d.findings m) :
    m.stanzas[f.position]? = some f.stanza := by
  obtain ⟨⟨s, i⟩, hs, rfl⟩ := List.mem_map.mp h
  exact List.mem_zipIdx_iff_getElem?.mp (List.mem_of_mem_filter hs)

open Classical in
/-- **Exactness of the detector.** The stanzas that are reported are those in conflict with the
    contents of a conditional block, in the order of the manifest and once for each occurrence;
    a finding bears the name of its stanza. -/
theorem findings_exact (m : Manifest) :
    (d.findings m).map Finding.stanza = m.stanzas.filter (d.Conflict m ·) ∧
    ((d.findings m).map Finding.position).Pairwise (· < ·) ∧
    ∀ f ∈ d.findings m, m.stanzas[f.position]? = some f.stanza ∧ f.name = f.stanza.name := by
  refine ⟨?_, ?_, ?_⟩
  · rw [map_stanza_findings]
    refine List.filter_congr fun s _ => ?_
    rw [Bool.eq_iff_iff, conflicts_declaredInBlocks, decide_eq_true_iff]
  · exact List.pairwise_lt_range.sublist (d.map_position_findings_sublist m)
  · intro f hf
    exact ⟨d.getElem?_of_mem_findings hf, rfl⟩

end Detector

end CaskLint
