import CaskLint.Proofs.Detection.Grouping
import CaskLint.Proofs.Detection.Pairwise
import Mathlib.Data.List.Forall2

/-!
# Payload has no part in the verdict

  What the detector reads of a tree is which methods are invoked and where. Everything else is
  payload. Two runs are compared here whose manifests differ in payload alone, at any number of
  places at once:

* **`Kind.Related`** — two kinds that hold related nodes in the same places. Literals, parameters
  of blocks, labels, and the choice between an array, a hash and any other construct are free.
* **`Node.SameUpToPayload`** — two nodes of related kinds, all the way down; spans are free, and an
  invocation of livecheck may be replaced by any other one.
* **`Detector.SamePayload`** — two stanzas of one name whose trees are the same up to payload, if
  that name is the name of a conditional block. Other stanzas may have any trees.

  Related kinds hand the same context to their children, and these are related in turn, so trees
  that are the same up to payload declare the same names (**`Node.SameUpToPayload.declared_eq`**).
  The heart of it is that livecheck hides everything below it, whatever that is. The findings then
  stand at the same positions (**`findings_eq_of_samePayload`**).
-/

namespace CaskLint

/-! ## Lists of related nodes -/

theorem forall₂_toList {R : Node → Node → Prop} {o o' : Option Node} (h : Option.Rel R o o') :
    List.Forall₂ R o.toList o'.toList := by
  cases h with
  | none => exact .nil
  | some h => exact .cons h .nil

/-! ## Trees that differ in payload -/

/-- The nodes of a kind that only lists them. -/
def Kind.items? : Kind → Option (List Node)
  | .array items => some items
  | .hash pairs => some pairs
  | .other _ children => some children
  | _ => none

/-- Two invocations of one method with related receivers and related arguments. -/
inductive Invocation.Related (R : Node → Node → Prop) : Invocation → Invocation → Prop where
  | invocation (method : String) {receiver receiver' : Option Node} {args args' : List Node} :
      Option.Rel R receiver receiver' → List.Forall₂ R args args' →
      Invocation.Related R ⟨receiver, method, args⟩ ⟨receiver', method, args'⟩

/-- Two kinds that hold related nodes in the same places. -/
inductive Kind.Related (R : Node → Node → Prop) : Kind → Kind → Prop where
  | send {c c' : Invocation} : c.Related R c' → Kind.Related R (.send c) (.send c')
  /-- The parameters of blocks are payload. -/
  | block {c c' : Invocation} (params params' : List String) {body body' : Option Node} :
      c.Related R c' → Option.Rel R body body' →
      Kind.Related R (.block ⟨c, params, body⟩) (.block ⟨c', params', body'⟩)
  | begin {ns ns' : List Node} : List.Forall₂ R ns ns' → Kind.Related R (.begin ns) (.begin ns')
  | interpolation {ns ns' : List Node} :
      List.Forall₂ R ns ns' → Kind.Related R (.interpolation ns) (.interpolation ns')
  /-- Literals are payload. -/
  | literal (l l' : Literal) : Kind.Related R (.literal l) (.literal l')
  /-- An array, a hash and any other construct may stand for each other, under any label. -/
  | items {k k' : Kind} {ns ns' : List Node} :
      k.items? = some ns → k'.items? = some ns' → List.Forall₂ R ns ns' → Kind.Related R k k'
  | pair {key key' value value' : Node} :
      R key key' → R value value' → Kind.Related R (.pair key value) (.pair key' value')

/-- Two trees that differ in payload alone, where `livecheck` is the name of the livecheck block. -/
inductive Node.SameUpToPayload (livecheck : String) : Node → Node → Prop where
  /-- Receiver, arguments and body of an invocation of livecheck are payload. -/
  | livecheck {n n' : Node} : n.method? = some livecheck → n'.method? = some livecheck →
      Node.SameUpToPayload livecheck n n'
  /-- Spans are payload. -/
  | node {k k' : Kind} (span span' : Span) : k.Related (Node.SameUpToPayload livecheck) k' →
      Node.SameUpToPayload livecheck ⟨k, span⟩ ⟨k', span'⟩

/-! ## What related kinds share -/

/-- A kind that only lists nodes invokes nothing and makes no context of its own. -/
theorem Kind.eq_of_items? {k : Kind} {ns : List Node} (h : k.items? = some ns) :
    k.children = ns ∧ (∀ context, k.contextBelow context = .ordinary) ∧
      ∀ span, (Node.mk k span).method? = none := by
  cases k with
  | array items | hash items | other label items =>
      obtain rfl := Option.some.inj h
      exact ⟨rfl, fun _ => rfl, fun _ => rfl⟩
  | _ => exact nomatch h

section

variable {R : Node → Node → Prop}

theorem Invocation.Related.method_eq {c c' : Invocation} (h : c.Related R c') :
    c.method = c'.method := by
  cases h with
  | invocation method hreceiver hargs => rfl

theorem Invocation.Related.operands {c c' : Invocation} (h : c.Related R c') :
    List.Forall₂ R c.operands c'.operands := by
  cases h with
  | invocation method hreceiver hargs => exact List.rel_append (forall₂_toList hreceiver) hargs

/-- Related kinds have related children, in the same order. -/
theorem Kind.Related.children {k k' : Kind} (h : k.Related R k') :
    List.Forall₂ R k.children k'.children := by
  cases h with
  | send hc => exact hc.operands
  | block params params' hc hbody => exact List.rel_append hc.operands (forall₂_toList hbody)
  | begin hns => exact hns
  | interpolation hns => exact hns
  | literal l l' => exact .nil
  | items hk hk' hns =>
      rw [(Kind.eq_of_items? hk).1, (Kind.eq_of_items? hk').1]
      exact hns
  | pair hkey hvalue => exact .cons hkey (.cons hvalue .nil)

theorem Kind.Related.contextBelow_eq {k k' : Kind} (h : k.Related R k') (context : Context) :
    k.contextBelow context = k'.contextBelow context := by
  cases h with
  | begin hns => cases context <;> rfl
  | items hk hk' hns => rw [(Kind.eq_of_items? hk).2.1, (Kind.eq_of_items? hk').2.1]
  | _ => rfl

theorem Kind.Related.method?_eq {k k' : Kind} (h : k.Related R k') (span span' : Span) :
    (Node.mk k span).method? = (Node.mk k' span').method? := by
  cases h with
  | send hc => exact congrArg some hc.method_eq
  | block params params' hc hbody => exact congrArg some hc.method_eq
  | items hk hk' hns => rw [(Kind.eq_of_items? hk).2.2, (Kind.eq_of_items? hk').2.2]
  | _ => rfl

end

/-! ## Declared names -/

/-- Livecheck declares nothing, whatever it is invoked with. -/
theorem Detector.declared_eq_nil_of_livecheck {d : Detector} {n : Node}
    (h : n.method? = some d.livecheck) (context : Context) : d.declared n context = [] := by
  rw [declared_eq, if_pos]
  exact beq_iff_eq.mpr h

/-- **Payload declares nothing.** Trees that are the same up to payload declare the same names, in
    whatever context they stand. -/
theorem Node.SameUpToPayload.declared_eq {d : Detector} {n n' : Node}
    (h : n.SameUpToPayload d.livecheck n') (context : Context) :
    d.declared n context = d.declared n' context := by
  induction n using Node.induction_on_children generalizing n' context with
  | step n ih =>
      cases h with
      | livecheck hn hn' =>
          rw [Detector.declared_eq_nil_of_livecheck hn, Detector.declared_eq_nil_of_livecheck hn']
      | @node k k' span span' hk =>
          refine d.declared_congr (hk.method?_eq span span') (flatMap_eq_of_forall₂ ?_)
          -- the children are related, and for each of them there is the induction hypothesis
          refine (List.forall₂_and_left _ _ |>.mpr ⟨ih, hk.children⟩).imp fun c c' ⟨hc, hcc'⟩ => ?_
          dsimp only
          rw [hc hcc', hk.contextBelow_eq]

/-! ## Findings -/

namespace Detector

variable (d : Detector)

/-- Two stanzas of one name. If they are conditional blocks, they differ in payload alone. -/
structure SamePayload (s s' : Stanza) : Prop where
  name_eq : s.name = s'.name
  isSome_block : s.name ∈ d.conditional → s.block?.isSome = s'.block?.isSome
  node : s.name ∈ d.conditional → s.node.SameUpToPayload d.livecheck s'.node

/-- Such stanzas declare the same names: a conditional block because of its tree, any other stanza
    because it declares none. -/
theorem SamePayload.declaredByStanza_eq {s s' : Stanza} (h : d.SamePayload s s') :
    d.declaredByStanza s = d.declaredByStanza s' := by
  rw [declaredByStanza, declaredByStanza, ← h.name_eq]
  by_cases hname : s.name ∈ d.conditional
  · rw [h.isSome_block hname, (h.node hname).declared_eq]
  · rw [d.isConditional_eq_false.mpr hname]
    rfl

/-- The findings, as positions and names, are told by the names of the stanzas and by the declared
    names. -/
theorem map_position_name_findings (m : Manifest) :
    (d.findings m).map (fun f => (f.position, f.name)) =
      ((m.stanzas.map Stanza.name).zipIdx.filter fun (name, _) =>
        !d.isConditional name && (d.declaredInBlocks m).contains name).map Prod.swap := by
  rw [findings, List.zipIdx_map, List.filter_map, List.map_map, List.map_map]
  rfl

/-- **Payload has no influence on the verdict.** Two manifests whose stanzas have pairwise the same
    names, and of which the conditional blocks differ in payload alone, have findings of the same
    names at the same positions. -/
theorem findings_eq_of_samePayload {m m' : Manifest}
    (h : List.Forall₂ d.SamePayload m.stanzas m'.stanzas) :
    (d.findings m).map (fun f => (f.position, f.name)) =
      (d.findings m').map (fun f => (f.position, f.name)) := by
  have hnames : m.stanzas.map Stanza.name = m'.stanzas.map Stanza.name := by
    rw [← List.forall₂_eq_eq_eq, List.forall₂_map_left_iff, List.forall₂_map_right_iff]
    exact h.imp fun _ _ hs => hs.name_eq
  have hdeclared : d.declaredInBlocks m = d.declaredInBlocks m' :=
    flatMap_eq_of_forall₂ (h.imp fun _ _ hs => hs.declaredByStanza_eq d)
  rw [map_position_name_findings, map_position_name_findings, hnames, hdeclared]

end Detector

/-! ## Two manifests that differ in payload -/

/-- Two stanzas and a conditional block, which lists something, invokes livecheck and declares
    `version` at a span. -/
def payloadManifest (version : Stanza) (params : List String) (listing : Kind)
    (livecheck : Node) (span : Span) : Manifest :=
  ⟨"foo", [version, .plain "url", ⟨"on_arm", .block "on_arm" [] params
    [.ofKind listing, livecheck, (Node.send "version" []).placedAt span], _, rfl, rfl, rfl⟩]⟩

/-- A block in place of the first stanza, other parameters, another kind of list with another
    literal in it, a `url` in the livecheck block and another span change nothing: `version` is
    found in both manifests, and `url` in none. -/
theorem findings_eq_of_samePayload_onArm :
    let m := payloadManifest (.plain "version") ["x"] (.array [.literal (.str "1.0")])
      (.send "livecheck" []) ⟨3, 10⟩
    let m' := payloadManifest (.around "version" "url") [] (.other "list" [.literal .nil])
      (.block "livecheck" [] [] [.send "url" []]) .dummy
    let d := Detector.standard
    List.Forall₂ d.SamePayload m.stanzas m'.stanzas ∧
    (d.findings m).map (fun f => (f.position, f.name)) =
      (d.findings m').map (fun f => (f.position, f.name)) ∧
    (d.findings m').map (fun f => (f.position, f.name)) = [(0, "version")] := by
  intro m m' d
  -- a name that is none of a conditional block leaves the tree open
  have hfree : ∀ {s s' : Stanza}, s.name = s'.name → s.name ∉ d.conditional →
      d.SamePayload s s' := fun hname hnot =>
    ⟨hname, fun h => absurd h hnot, fun h => absurd h hnot⟩
  have hlisting : Kind.Related (Node.SameUpToPayload "livecheck")
      (.array [.literal (.str "1.0")]) (.other "list" [.literal .nil]) :=
    .items rfl rfl (.cons (.node _ _ (.literal _ _)) .nil)
  have hversion : Kind.Related (Node.SameUpToPayload "livecheck")
      (.send ⟨none, "version", []⟩) (.send ⟨none, "version", []⟩) :=
    .send (.invocation "version" .none .nil)
  have hbody : Kind.Related (Node.SameUpToPayload "livecheck")
      (.begin [.ofKind _, .send "livecheck" [], (Node.send "version" []).placedAt ⟨3, 10⟩])
      (.begin [.ofKind _, .block "livecheck" [] [] [.send "url" []],
        (Node.send "version" []).placedAt .dummy]) :=
    .begin (.cons (.node _ _ hlisting) (.cons (.livecheck rfl rfl)
      (.cons (.node _ _ hversion) .nil)))
  have honArm : d.SamePayload m.stanzas[2] m'.stanzas[2] :=
    ⟨rfl, fun _ => rfl, fun _ => .node _ _ (.block ["x"] [] (.invocation "on_arm" .none .nil)
      (.some (.node _ _ hbody)))⟩
  have hall : List.Forall₂ d.SamePayload m.stanzas m'.stanzas :=
    .cons (hfree rfl (by decide)) (.cons (hfree rfl (by decide)) (.cons honArm .nil))
  exact ⟨hall, d.findings_eq_of_samePayload hall, by decide⟩

end CaskLint
