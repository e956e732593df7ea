import CaskLint.Proofs.Stanza.Statements
import CaskLint.Tree.Builders
import CaskLint.Tree.Equality
import Mathlib.Data.List.Forall2

/-!
# Grouping statements changes no verdict

  A sequence of statements may be written flat or in groups, and a body may be absent, a single
  statement or a sequence. Sequences also wrap code inside interpolated strings, and there they
  must stay as they are. So it matters where a sequence may be opened:

* **`Node.Regrouped`** — two nodes that differ only in how the bodies of block calls, at any
  depth, group their statements.
* **`Node.SameUpToGrouping`** — two statement lists that become pairwise such nodes once every
  sequence in them is opened.

  The walk of the detector stands in the ordinary context wherever it enters the body of a block,
  so there a sequence declares what its statements declare (`flatMap_declared_flattenList`).
  By induction over the relation, regrouped nodes declare the same names in every context
  (**`Node.Regrouped.declared_eq`**), and the findings agree
  (**`findings_eq_of_sameUpToGrouping`**).
-/

namespace CaskLint

/-! ## Regrouping -/

mutual

/-- Two nodes that differ at most in how the bodies of block calls group their statements. -/
inductive Node.Regrouped : Node → Node → Prop where
  | node {k k' : Kind} (span : Span) : k.Regrouped k' → Node.Regrouped ⟨k, span⟩ ⟨k', span⟩

/-- Two kinds that differ at most in the grouping of bodies. A sequence in any place but the body
    of a block call is kept. -/
inductive Kind.Regrouped : Kind → Kind → Prop where
  | send {c c' : Invocation} : c.Regrouped c' → Kind.Regrouped (.send c) (.send c')
  /-- The bodies hold the same statements, once every sequence among these is opened. -/
  | block {c c' : Invocation} (params : List String) {body body' : Option Node} :
      c.Regrouped c' →
      Node.RegroupedAll (Node.flattenList body.toList) (Node.flattenList body'.toList) →
      Kind.Regrouped (.block ⟨c, params, body⟩) (.block ⟨c', params, body'⟩)
  | begin {ns ns' : List Node} : Node.RegroupedAll ns ns' → Kind.Regrouped (.begin ns) (.begin ns')
  | interpolation {ns ns' : List Node} :
      Node.RegroupedAll ns ns' → Kind.Regrouped (.interpolation ns) (.interpolation ns')
  /-- Literals are the same, or equal as numbers. -/
  | literal {l l' : Literal} :
      l = l' ∨ (l == l') = true → Kind.Regrouped (.literal l) (.literal l')
  | array {ns ns' : List Node} : Node.RegroupedAll ns ns' → Kind.Regrouped (.array ns) (.array ns')
  | hash {ns ns' : List Node} : Node.RegroupedAll ns ns' → Kind.Regrouped (.hash ns) (.hash ns')
  | pair {key key' value value' : Node} :
      key.Regrouped key' → value.Regrouped value' →
      Kind.Regrouped (.pair key value) (.pair key' value')
  | other (label : String) {ns ns' : List Node} :
      Node.RegroupedAll ns ns' → Kind.Regrouped (.other label ns) (.other label ns')

/-- Two invocations of one method whose receivers and arguments differ at most in the grouping of
    bodies. -/
inductive Invocation.Regrouped : Invocation → Invocation → Prop where
  | invocation (method : String) {receiver receiver' : Option Node} {args args' : List Node} :
      Node.RegroupedAll receiver.toList receiver'.toList → Node.RegroupedAll args args' →
      Invocation.Regrouped ⟨receiver, method, args⟩ ⟨receiver', method, args'⟩

/-- Two lists of nodes that are pairwise regrouped. -/
inductive Node.RegroupedAll : List Node → List Node → Prop where
  | nil : Node.RegroupedAll [] []
  | cons {n n' : Node} {ns ns' : List Node} :
      n.Regrouped n' → Node.RegroupedAll ns ns' → Node.RegroupedAll (n :: ns) (n' :: ns')

end

/-- Two statement lists that hold the same statements, up to the grouping of the bodies in them,
    once every sequence among the statements is opened. -/
def Node.SameUpToGrouping (body body' : List Node) : Prop :=
  Node.RegroupedAll (Node.flattenList body) (Node.flattenList body')

/-! ## What regrouping keeps -/

/-- Regrouped lists stay pairwise regrouped when they are put one after the other. -/
theorem Node.RegroupedAll.append {as as' bs bs' : List Node} (ha : Node.RegroupedAll as as')
    (hb : Node.RegroupedAll bs bs') : Node.RegroupedAll (as ++ bs) (as' ++ bs') := by
  match ha with
  | .nil => exact hb
  | .cons h hs => exact .cons h (hs.append hb)

theorem Invocation.Regrouped.method_eq {c c' : Invocation} (h : c.Regrouped c') :
    c.method = c'.method := by
  cases h with
  | invocation method hreceiver hargs => rfl

theorem Invocation.Regrouped.operands {c c' : Invocation} (h : c.Regrouped c') :
    Node.RegroupedAll c.operands c'.operands := by
  cases h with
  | invocation method hreceiver hargs => exact hreceiver.append hargs

theorem Invocation.Regrouped.isNone_receiver {c c' : Invocation} (h : c.Regrouped c') :
    c.receiver.isNone = c'.receiver.isNone := by
  cases h with
  | @invocation method receiver receiver' args args' hreceiver hargs =>
      cases receiver with
      | none =>
          cases receiver' with
          | none => rfl
          | some n => exact nomatch hreceiver
      | some n =>
          cases receiver' with
          | none => exact nomatch hreceiver
          | some n' => rfl

/-- Regrouped nodes invoke nothing, or they invoke regrouped invocations. -/
theorem Node.Regrouped.invocation? {n n' : Node} (h : n.Regrouped n') :
    (n.invocation? = none ∧ n'.invocation? = none) ∨
      ∃ c c', n.invocation? = some c ∧ n'.invocation? = some c' ∧ c.Regrouped c' := by
  cases h with
  | node span hk =>
      cases hk with
      | send hc => exact Or.inr ⟨_, _, rfl, rfl, hc⟩
      | block params hc hbody => exact Or.inr ⟨_, _, rfl, rfl, hc⟩
      | _ => exact Or.inl ⟨rfl, rfl⟩

theorem Node.Regrouped.method?_eq {n n' : Node} (h : n.Regrouped n') :
    n.method? = n'.method? := by
  rw [Node.method?, Node.method?]
  rcases h.invocation? with ⟨hn, hn'⟩ | ⟨c, c', hn, hn', hc⟩
  · rw [hn, hn']
  · rw [hn, hn', Option.map_some, Option.map_some, hc.method_eq]

theorem Node.Regrouped.span_eq {n n' : Node} (h : n.Regrouped n') : n.span = n'.span := by
  cases h with
  | node span hk => rfl

theorem Node.Regrouped.isSome_blockCall? {n n' : Node} (h : n.Regrouped n') :
    n.blockCall?.isSome = n'.blockCall?.isSome := by
  cases h with
  | node span hk => cases hk <;> rfl

theorem Kind.Regrouped.contextBelow_eq {k k' : Kind} (h : k.Regrouped k') (context : Context) :
    k.contextBelow context = k'.contextBelow context := by
  cases h with
  | begin hns => cases context <;> rfl
  | _ => rfl

/-! ## Declared names -/

/-- Lists whose members give pairwise the same give the same as a whole. -/
theorem flatMap_eq_of_forall₂ {α β γ : Type} {f : α → List γ} {g : β → List γ} {as : List α}
    {bs : List β} (h : List.Forall₂ (fun a b => f a = g b) as bs) :
    as.flatMap f = bs.flatMap g := by
  induction h with
  | nil => rfl
  | cons hfirst _ ih => rw [List.flatMap_cons, List.flatMap_cons, hfirst, ih]

namespace Detector

variable (d : Detector)

/-- What a node declares depends on the method it invokes, on the context that it hands down, and
    on what its children declare in that. -/
theorem declared_congr {n n' : Node} {context : Context} (hmethod : n.method? = n'.method?)
    (hchildren : n.children.flatMap (d.declared · (n.kind.contextBelow context)) =
      n'.children.flatMap (d.declared · (n'.kind.contextBelow context))) :
    d.declared n context = d.declared n' context := by
  have hlivecheck : d.isLivecheck n = d.isLivecheck n' := by
    rw [isLivecheck, isLivecheck, hmethod]
  have hhere : d.declaredHere n context = d.declaredHere n' context := by
    rw [declaredHere, declaredHere, hmethod]
  rw [declared_eq, declared_eq, hlivecheck, hhere, hchildren]

/-- In the ordinary context a sequence declares what its statements declare. -/
theorem declared_begin (children : List Node) (span : Span) :
    d.declared ⟨.begin children, span⟩ .ordinary = children.flatMap (d.declared · .ordinary) := by
  rw [declared_eq, if_neg (by simp [isLivecheck, Node.method?, Node.invocation?])]
  rfl

/-- So opening the sequences of a statement list changes nothing. -/
theorem flatMap_declared_flatten (n : Node) :
    n.flatten.flatMap (d.declared · .ordinary) = d.declared n .ordinary := by
  induction n using Node.induction_on_children with
  | step n ih =>
      rcases n.eq_begin_or_ne with ⟨children, span, rfl⟩ | hbegin
      · show (Node.flattenList children).flatMap (d.declared · .ordinary) = _
        rw [declared_begin, Node.flattenList_eq_flatMap, List.flatMap_assoc]
        exact List.flatMap_congr ih
      · rw [Node.flatten_of_ne_begin hbegin]
        exact List.flatMap_singleton _ _

theorem flatMap_declared_flattenList (ns : List Node) :
    (Node.flattenList ns).flatMap (d.declared · .ordinary) =
      ns.flatMap (d.declared · .ordinary) := by
  rw [Node.flattenList_eq_flatMap, List.flatMap_assoc]
  exact List.flatMap_congr fun n _ => d.flatMap_declared_flatten n

end Detector

section

variable (d : Detector)

mutual

/-- **Regrouped nodes declare the same names**, in whatever context they stand. -/
theorem Node.Regrouped.declared_eq {n n' : Node} (h : n.Regrouped n') (context : Context) :
    d.declared n context = d.declared n' context := by
  match h with
  | .node span hk =>
      refine d.declared_congr (Node.Regrouped.node span hk).method?_eq ?_
      rw [← hk.contextBelow_eq]
      exact Kind.Regrouped.declared_children_eq hk context

/-- The children of regrouped kinds declare the same names in the context below. -/
theorem Kind.Regrouped.declared_children_eq {k k' : Kind} (h : k.Regrouped k')
    (context : Context) :
    k.children.flatMap (d.declared · (k.contextBelow context)) =
      k'.children.flatMap (d.declared · (k.contextBelow context)) := by
  match h with
  | .send hc => exact Invocation.Regrouped.declared_operands_eq hc _
  | @Kind.Regrouped.block c c' params body body' hc hbody =>
      -- below a block call the context is ordinary, so its body may be opened
      have hoperands := Invocation.Regrouped.declared_operands_eq hc .ordinary
      have hstatements := Node.RegroupedAll.flatMap_declared_eq hbody .ordinary
      rw [d.flatMap_declared_flattenList, d.flatMap_declared_flattenList] at hstatements
      show (_ ++ body.toList).flatMap (d.declared · .ordinary) =
        (_ ++ body'.toList).flatMap (d.declared · .ordinary)
      rw [List.flatMap_append, List.flatMap_append, hoperands, hstatements]
  | .begin hns => exact Node.RegroupedAll.flatMap_declared_eq hns _
  | .interpolation hns => exact Node.RegroupedAll.flatMap_declared_eq hns _
  | .literal hl => rfl
  | .array hns => exact Node.RegroupedAll.flatMap_declared_eq hns _
  | .hash hns => exact Node.RegroupedAll.flatMap_declared_eq hns _
  | @Kind.Regrouped.pair key key' value value' hkey hvalue =>
      show [key, value].flatMap (d.declared · .ordinary) =
        [key', value'].flatMap (d.declared · .ordinary)
      rw [List.flatMap_cons, List.flatMap_cons, List.flatMap_cons, List.flatMap_cons,
        Node.Regrouped.declared_eq hkey, Node.Regrouped.declared_eq hvalue]
  | .other label hns => exact Node.RegroupedAll.flatMap_declared_eq hns _

theorem Invocation.Regrouped.declared_operands_eq {c c' : Invocation} (h : c.Regrouped c')
    (context : Context) :
    c.operands.flatMap (d.declared · context) = c'.operands.flatMap (d.declared · context) := by
  match h with
  | .invocation method hreceiver hargs =>
      rw [Invocation.operands, Invocation.operands, List.flatMap_append, List.flatMap_append]
      exact congrArg₂ (· ++ ·) (Node.RegroupedAll.flatMap_declared_eq hreceiver context)
        (Node.RegroupedAll.flatMap_declared_eq hargs context)

theorem Node.RegroupedAll.flatMap_declared_eq {ns ns' : List Node} (h : Node.RegroupedAll ns ns')
    (context : Context) :
    ns.flatMap (d.declared · context) = ns'.flatMap (d.declared · context) := by
  match h with
  | .nil => rfl
  | .cons hn hns =>
      rw [List.flatMap_cons, List.flatMap_cons, Node.Regrouped.declared_eq hn context,
        Node.RegroupedAll.flatMap_declared_eq hns context]

end

end

/-! ## Stanzas and findings -/

/-- Two stanzas of one name whose nodes are regrouped. -/
structure Stanza.Regrouped (s s' : Stanza) : Prop where
  name_eq : s.name = s'.name
  node : s.node.Regrouped s'.node

theorem Stanza.Regrouped.declaredByStanza_eq {s s' : Stanza} (h : s.Regrouped s') (d : Detector) :
    d.declaredByStanza s = d.declaredByStanza s' := by
  rw [Detector.declaredByStanza, Detector.declaredByStanza, h.name_eq, Stanza.block?,
    Stanza.block?, h.node.isSome_blockCall?, h.node.declared_eq]

/-- Regrouped nodes are both no stanza of the vocabulary, or both regrouped ones. -/
theorem Node.Regrouped.known? {n n' : Node} (h : n.Regrouped n') :
    (Stanza.known? n = none ∧ Stanza.known? n' = none) ∨
      ∃ s s', Stanza.known? n = some s ∧ Stanza.known? n' = some s' ∧ s.Regrouped s' := by
  rw [Stanza.known?, Stanza.known?]
  rcases h.invocation? with ⟨hn, hn'⟩ | ⟨c, c', hn, hn', hc⟩
  · rw [Stanza.ofNode?_of_none hn, Stanza.ofNode?_of_none hn']
    exact Or.inl ⟨rfl, rfl⟩
  · rcases Stanza.ofNode?_of_some hn with ⟨hr, s, hs, hname, hnode⟩ | ⟨hr, hs⟩
    · rcases Stanza.ofNode?_of_some hn' with ⟨-, s', hs', hname', hnode'⟩ | ⟨hr', -⟩
      · have hnames : s.name = s'.name := by rw [hname, hname', hc.method_eq]
        have hboth : s.Regrouped s' := ⟨hnames, by rw [hnode, hnode']; exact h⟩
        rw [hs, hs', Option.filter_some, Option.filter_some, hnames]
        by_cases hkeep : Vocabulary.isStanzaName s'.name = true
        · rw [if_pos hkeep, if_pos hkeep]
          exact Or.inr ⟨s, s', rfl, rfl, hboth⟩
        · rw [if_neg hkeep, if_neg hkeep]
          exact Or.inl ⟨rfl, rfl⟩
      · -- a receiver on one side only
        rw [hc.isNone_receiver, hr'] at hr
        cases hr
    · rcases Stanza.ofNode?_of_some hn' with ⟨hr', -⟩ | ⟨-, hs'⟩
      · rw [hc.isNone_receiver, hr'] at hr
        cases hr
      · rw [hs, hs']
        exact Or.inl ⟨rfl, rfl⟩

/-- Selection takes regrouped statements to regrouped stanzas, one by one. -/
theorem Node.RegroupedAll.filterMap_known? {ns ns' : List Node} (h : Node.RegroupedAll ns ns') :
    List.Forall₂ Stanza.Regrouped (ns.filterMap Stanza.known?) (ns'.filterMap Stanza.known?) := by
  match h with
  | .nil => exact .nil
  | .cons hn hns =>
      have hrest := Node.RegroupedAll.filterMap_known? hns
      rcases hn.known? with ⟨hs, hs'⟩ | ⟨s, s', hs, hs', hboth⟩
      · rw [List.filterMap_cons_none hs, List.filterMap_cons_none hs']
        exact hrest
      · rw [List.filterMap_cons_some hs, List.filterMap_cons_some hs']
        exact .cons hboth hrest

namespace Detector

variable (d : Detector)

theorem declaredByStanza_eq_of_forall₂ {ss ss' : List Stanza}
    (h : List.Forall₂ Stanza.Regrouped ss ss') :
    ss.flatMap d.declaredByStanza = ss'.flatMap d.declaredByStanza :=
  flatMap_eq_of_forall₂ (h.imp fun _ _ hs => hs.declaredByStanza_eq d)

/-- The test for a conflict looks at the name alone, which regrouping keeps, and so does the place
    that is reported. -/
theorem filter_conflicts_eq_of_forall₂ (names : List String) {ss ss' : List Stanza}
    (h : List.Forall₂ Stanza.Regrouped ss ss') :
    (ss.filter (d.conflicts names)).map (fun s => (s.name, s.span)) =
      (ss'.filter (d.conflicts names)).map (fun s => (s.name, s.span)) := by
  induction h with
  | nil => rfl
  | @cons s s' ss ss' hs _ ih =>
      have hkeep : d.conflicts names s = d.conflicts names s' := by
        rw [conflicts, conflicts, hs.name_eq]
      have hplace : (s.name, s.span) = (s'.name, s'.span) :=
        congrArg₂ Prod.mk hs.name_eq hs.node.span_eq
      rw [List.filter_cons, List.filter_cons, hkeep]
      by_cases hc : d.conflicts names s' = true
      · rw [if_pos hc, if_pos hc, List.map_cons, List.map_cons, ih, hplace]
      · rw [if_neg hc, if_neg hc, ih]

/-- **The verdict does not depend on how statements are grouped.** Two bodies that are the same up
    to grouping, at the top and in the bodies of block calls at any depth, have findings of the
    same names at the same places in the same order. -/
theorem findings_eq_of_sameUpToGrouping {body body' : List Node}
    (h : Node.SameUpToGrouping body body') (token : String) :
    (d.findings (.ofBody token body)).map (fun f => (f.name, f.span)) =
      (d.findings (.ofBody token body')).map (fun f => (f.name, f.span)) := by
  have hstanzas := Node.RegroupedAll.filterMap_known? h
  have hnames : d.declaredInBlocks (.ofBody token body) =
      d.declaredInBlocks (.ofBody token body') := d.declaredByStanza_eq_of_forall₂ hstanzas
  have hplaces :=
    d.filter_conflicts_eq_of_forall₂ (d.declaredInBlocks (.ofBody token body)) hstanzas
  -- a finding is told by its stanza
  have hfindings : ∀ m : Manifest, (d.findings m).map (fun f => (f.name, f.span)) =
      (m.stanzas.filter (d.conflicts (d.declaredInBlocks m))).map (fun s => (s.name, s.span)) := by
    intro m
    rw [← map_stanza_findings, List.map_map]
    rfl
  rw [hfindings, hfindings, ← hnames]
  exact hplaces

end Detector

/-! ## Two ways to group one body -/

/-- A stanza beside a conditional block. An argument of the block is a string, and code in that
    string calls a method with a block on a livecheck block. The bodies of the blocks are given. -/
def nestedBlocks (body codeBody livecheckBody : Option Node) : List Node :=
  [.send "version" [],
    .ofKind (.block ⟨⟨none, "on_arm", [.interpolation [.code (.ofKind (.block ⟨⟨some (.ofKind
      (.block ⟨⟨none, "livecheck", []⟩, [], livecheckBody⟩)), "map", []⟩, [], codeBody⟩))]]⟩, [],
      body⟩)]

theorem sameUpToGrouping_nestedBlocks :
    Node.SameUpToGrouping
      (nestedBlocks none (some (.send "version" [])) (some (.send "url" [])))
      [.sequence [], .sequence (nestedBlocks (some (.sequence []))
        (some (.sequence [.sequence [], .send "version" []]))
        (some (.sequence [.send "url" []])))] := by
  have hsend : ∀ name, (Node.send name []).Regrouped (.send name []) := fun name =>
    .node _ (.send (.invocation name .nil .nil))
  have hlivecheck : Kind.Regrouped
      (.block ⟨⟨none, "livecheck", []⟩, [], some (.send "url" [])⟩)
      (.block ⟨⟨none, "livecheck", []⟩, [], some (.sequence [.send "url" []])⟩) :=
    .block [] (.invocation _ .nil .nil) (.cons (hsend "url") .nil)
  have hcode : Kind.Regrouped
      (.block ⟨⟨some _, "map", []⟩, [], some (.send "version" [])⟩)
      (.block ⟨⟨some _, "map", []⟩, [], some (.sequence [.sequence [], .send "version" []])⟩) :=
    .block [] (.invocation _ (.cons (.node Span.dummy hlivecheck) .nil) .nil)
      (.cons (hsend "version") .nil)
  -- the sequence around the code is kept, the sequences of statements are opened
  have hstring : Kind.Regrouped (.interpolation [.code (.ofKind _)])
      (.interpolation [.code (.ofKind _)]) :=
    .interpolation (.cons (.node _ (.begin (.cons (.node Span.dummy hcode) .nil))) .nil)
  have hblock : Kind.Regrouped (.block ⟨⟨none, "on_arm", _⟩, [], none⟩)
      (.block ⟨⟨none, "on_arm", _⟩, [], some (.sequence [])⟩) :=
    .block [] (.invocation _ .nil (.cons (.node Span.dummy hstring) .nil)) .nil
  exact .cons (hsend "version") (.cons (.node Span.dummy hblock) .nil)

/-- In both of these bodies `version` is found, because the code in the string has a block that
    declares it. -/
theorem findings_eq_of_sameUpToGrouping_nestedBlocks :
    Node.SameUpToGrouping
      (nestedBlocks none (some (.send "version" [])) (some (.send "url" [])))
      [.sequence [], .sequence (nestedBlocks (some (.sequence []))
        (some (.sequence [.sequence [], .send "version" []]))
        (some (.sequence [.send "url" []])))] ∧
    (Detector.standard.findings (.ofBody "foo"
      (nestedBlocks none (some (.send "version" [])) (some (.send "url" []))))).map
        (fun f => (f.name, f.span)) =
    (Detector.standard.findings (.ofBody "foo"
      [.sequence [], .sequence (nestedBlocks (some (.sequence []))
        (some (.sequence [.sequence [], .send "version" []]))
        (some (.sequence [.send "url" []])))])).map (fun f => (f.name, f.span)) ∧
    (Detector.standard.findings (.ofBody "foo"
      (nestedBlocks none (some (.send "version" [])) (some (.send "url" []))))).map
        (fun f => (f.name, f.span)) = [("version", Span.dummy)] :=
  ⟨sameUpToGrouping_nestedBlocks,
    Detector.standard.findings_eq_of_sameUpToGrouping sameUpToGrouping_nestedBlocks "foo",
    by decide⟩

end CaskLint
