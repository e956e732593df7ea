import CaskLint.Proofs.Detection.Exactness
import CaskLint.Tree.Builders
import Mathlib.Data.List.Basic

/-!
# Which statements are stanzas

  The manifest of a body is made by opening sequences and keeping the stanzas of the vocabulary.
  Here the same stanzas are told by the places where they stand:

* **`Node.Opened`** — an address leads from a statement list through sequences, and through
  nothing else, to a statement that is no sequence. It is the list of the positions on the way,
  so addresses in lexicographic order are places from left to right, depth first.
* **`Node.places`** — all of these statements, each with its address (`mem_placesIn`), in the order
  of their addresses (`pairwise_placesIn`). They are what opening the sequences gives
  (`map_snd_placesIn`).
* **`Node.DeclaresStanza`** — the statement invokes a stanza name without a receiver.

  A stanza is determined by its node (`Stanza.known?_eq_some`), so the stanzas of a body are the
  statements at these addresses and nothing else (**`ofBody_exact`**).
-/

namespace CaskLint

/-! ## Places in a body -/

/-- `Node.Opened ns address n`: the address leads from the statements `ns` through sequences only
    to `n`, which is no sequence itself. -/
inductive Node.Opened : List Node → List Nat → Node → Prop where
  | statement {ns : List Node} {i : Nat} {n : Node} :
      ns[i]? = some n → n.kind.name ≠ .begin → Node.Opened ns [i] n
  | inside {ns children : List Node} {i : Nat} {span : Span} {address : List Nat} {n : Node} :
      ns[i]? = some ⟨.begin children, span⟩ → Node.Opened children address n →
      Node.Opened ns (i :: address) n

/-- The statements of lists of placed statements, each with the position of its list in front of
    its address. -/
def Node.placesBelow (below : List (List (List Nat × Node))) : List (List Nat × Node) :=
  below.zipIdx.flatMap fun (places, i) => places.map fun (address, n) => (i :: address, n)

/-- The statements that a node consists of once every sequence in it is opened, with their
    addresses below the node. -/
def Node.places (n : Node) : List (List Nat × Node) :=
  n.fold fun n below =>
    match n.kind with
    | .begin _ => Node.placesBelow below
    | _ => [([], n)]

/-- The statements of a statement list, with their addresses. -/
def Node.placesIn (ns : List Node) : List (List Nat × Node) := Node.placesBelow (ns.map Node.places)

/-- A node is a sequence or it is not opened. -/
theorem Node.eq_begin_or_ne (n : Node) :
    (∃ children span, n = ⟨.begin children, span⟩) ∨ n.kind.name ≠ .begin := by
  obtain ⟨kind, span⟩ := n
  cases kind with
  | begin children => exact Or.inl ⟨children, span, rfl⟩
  | _ => exact Or.inr KindName.noConfusion

theorem Node.places_begin (children : List Node) (span : Span) :
    Node.places ⟨.begin children, span⟩ = Node.placesIn children := by
  rw [Node.places, Node.fold_eq]
  rfl

theorem Node.places_of_ne_begin {n : Node} (h : n.kind.name ≠ .begin) :
    n.places = [([], n)] := by
  obtain ⟨kind, span⟩ := n
  rw [Node.places, Node.fold_eq]
  cases kind with
  | begin children => exact absurd rfl h
  | _ => rfl

theorem Node.mem_placesIn_iff {ns : List Node} {address : List Nat} {n : Node} :
    (address, n) ∈ Node.placesIn ns ↔
      ∃ i m rest, address = i :: rest ∧ ns[i]? = some m ∧ (rest, n) ∈ m.places := by
  rw [placesIn, placesBelow, List.zipIdx_map, List.flatMap_map, List.mem_flatMap]
  constructor
  · rintro ⟨⟨m, i⟩, hm, hn⟩
    obtain ⟨⟨rest, n'⟩, hrest, heq⟩ := List.mem_map.mp hn
    obtain ⟨rfl, rfl⟩ := Prod.mk.inj heq
    exact ⟨i, m, rest, rfl, List.mem_zipIdx_iff_getElem?.mp hm, hrest⟩
  · rintro ⟨i, m, rest, rfl, hm, hrest⟩
    exact ⟨(m, i), List.mem_zipIdx_iff_getElem?.mpr hm, List.mem_map.mpr ⟨(rest, n), hrest, rfl⟩⟩

/-- What a node consists of is opened in every list that has the node. -/
theorem Node.opened_of_mem_places {m n : Node} {rest : List Nat} (h : (rest, n) ∈ m.places)
    {ns : List Node} {i : Nat} (hm : ns[i]? = some m) : Node.Opened ns (i :: rest) n := by
  induction m using Node.induction_on_children generalizing n rest ns i with
  | step m ih =>
      rcases m.eq_begin_or_ne with ⟨children, span, rfl⟩ | hbegin
      · rw [Node.places_begin, Node.mem_placesIn_iff] at h
        obtain ⟨j, c, rest, rfl, hc, hn⟩ := h
        exact .inside hm (ih c (List.mem_of_getElem? hc) hn hc)
      · rw [Node.places_of_ne_begin hbegin] at h
        obtain ⟨rfl, rfl⟩ := Prod.mk.inj (List.mem_singleton.mp h)
        exact .statement hm hbegin

/-- The places of a statement list are those to which an address leads. -/
theorem Node.mem_placesIn {ns : List Node} {address : List Nat} {n : Node} :
    (address, n) ∈ Node.placesIn ns ↔ Node.Opened ns address n := by
  constructor
  · intro h
    obtain ⟨i, m, rest, rfl, hm, hn⟩ := Node.mem_placesIn_iff.mp h
    exact Node.opened_of_mem_places hn hm
  · intro h
    induction h with
    | @statement ns i n hn hbegin =>
        refine Node.mem_placesIn_iff.mpr ⟨i, n, [], rfl, hn, ?_⟩
        rw [Node.places_of_ne_begin hbegin]
        exact List.mem_singleton_self _
    | @inside ns children i span address n hm _ ih =>
        refine Node.mem_placesIn_iff.mpr ⟨i, _, address, rfl, hm, ?_⟩
        rw [Node.places_begin]
        exact ih

/-! ## Their order -/

theorem pairwise_snd_lt_zipIdx {α : Type} (l : List α) : l.zipIdx.Pairwise (·.2 < ·.2) := by
  have hindices := List.pairwise_lt_range' (s := 0) (n := l.length) 1
  rw [← List.zipIdx_map_snd 0 l, List.pairwise_map] at hindices
  exact hindices

/-- Put below positions, ascending addresses ascend. -/
theorem Node.pairwise_placesBelow {below : List (List (List Nat × Node))}
    (h : ∀ places ∈ below, places.Pairwise (·.1 < ·.1)) :
    (Node.placesBelow below).Pairwise (·.1 < ·.1) := by
  rw [placesBelow, List.pairwise_flatMap]
  constructor
  · rintro ⟨places, i⟩ hplaces
    rw [List.pairwise_map]
    refine (h places (List.mem_of_getElem? (List.mem_zipIdx_iff_getElem?.mp hplaces))).imp ?_
    intro a b hab
    exact List.cons_lt_cons_iff.mpr (Or.inr ⟨rfl, hab⟩)
  · -- the positions decide between addresses of different lists
    refine (pairwise_snd_lt_zipIdx below).imp ?_
    rintro ⟨places, i⟩ ⟨places', j⟩ hij a ha b hb
    obtain ⟨a, -, rfl⟩ := List.mem_map.mp ha
    obtain ⟨b, -, rfl⟩ := List.mem_map.mp hb
    exact List.cons_lt_cons_iff.mpr (Or.inl hij)

theorem Node.pairwise_places (n : Node) : n.places.Pairwise (·.1 < ·.1) := by
  induction n using Node.induction_on_children with
  | step n ih =>
      rcases n.eq_begin_or_ne with ⟨children, span, rfl⟩ | hbegin
      · rw [Node.places_begin]
        refine Node.pairwise_placesBelow fun places hplaces => ?_
        obtain ⟨c, hc, rfl⟩ := List.mem_map.mp hplaces
        exact ih c hc
      · rw [Node.places_of_ne_begin hbegin]
        exact List.pairwise_singleton _ _

theorem Node.pairwise_placesIn (ns : List Node) : (Node.placesIn ns).Pairwise (·.1 < ·.1) := by
  refine Node.pairwise_placesBelow fun places hplaces => ?_
  obtain ⟨n, -, rfl⟩ := List.mem_map.mp hplaces
  exact n.pairwise_places

/-! ## Opening sequences -/

theorem Node.flattenList_eq_flatMap (ns : List Node) :
    Node.flattenList ns = ns.flatMap Node.flatten := by
  induction ns with
  | nil => rfl
  | cons n ns ih => rw [Node.flattenList, List.flatMap_cons, ih]

theorem Node.flatten_of_ne_begin {n : Node} (h : n.kind.name ≠ .begin) : n.flatten = [n] := by
  obtain ⟨kind, span⟩ := n
  cases kind with
  | begin children => exact absurd rfl h
  | _ => rfl

theorem Node.map_snd_placesBelow (below : List (List (List Nat × Node))) :
    (Node.placesBelow below).map Prod.snd = below.flatMap (·.map Prod.snd) := by
  rw [placesBelow, List.map_flatMap]
  simp only [List.map_map]
  conv_rhs => rw [← List.zipIdx_map_fst 0 below, List.flatMap_map]
  rfl

/-- Opening the sequences of a node gives its places without their addresses. -/
theorem Node.map_snd_places (n : Node) : n.places.map Prod.snd = n.flatten := by
  induction n using Node.induction_on_children with
  | step n ih =>
      rcases n.eq_begin_or_ne with ⟨children, span, rfl⟩ | hbegin
      · show _ = Node.flattenList children
        rw [Node.places_begin, Node.placesIn, Node.map_snd_placesBelow, List.flatMap_map,
          Node.flattenList_eq_flatMap]
        exact List.flatMap_congr ih
      · rw [Node.places_of_ne_begin hbegin, Node.flatten_of_ne_begin hbegin]
        rfl

theorem Node.map_snd_placesIn (ns : List Node) :
    (Node.placesIn ns).map Prod.snd = Node.flattenList ns := by
  rw [placesIn, Node.map_snd_placesBelow, List.flatMap_map, Node.flattenList_eq_flatMap]
  exact List.flatMap_congr fun n _ => n.map_snd_places

/-! ## Stanzas -/

/-- The node invokes a stanza name, with or without a block, on no receiver. -/
def Node.DeclaresStanza (n : Node) : Prop :=
  ∃ call : Invocation,
    (n.kind = .send call ∨ ∃ params body, n.kind = .block ⟨call, params, body⟩) ∧
    call.receiver = none ∧ Vocabulary.isStanzaName call.method = true

namespace Stanza

/-- What `ofNode?` makes of a node, seen from the invocation. -/
theorem ofNode?_of_some {n : Node} {call : Invocation} (hn : n.invocation? = some call) :
    (call.receiver.isNone = true ∧ ∃ s, ofNode? n = some s ∧ s.name = call.method ∧ s.node = n) ∨
      (call.receiver.isNone = false ∧ ofNode? n = none) := by
  rw [ofNode?]
  split
  · rename_i h
    rw [hn] at h
    cases h
  · rename_i call' h
    rw [hn] at h
    obtain rfl := Option.some.inj h
    by_cases hr : call.receiver.isNone = true
    · rw [dif_pos hr]
      exact Or.inl ⟨hr, _, rfl, rfl, rfl⟩
    · rw [dif_neg hr]
      exact Or.inr ⟨Bool.not_eq_true _ ▸ hr, rfl⟩

theorem ofNode?_of_none {n : Node} (hn : n.invocation? = none) : ofNode? n = none := by
  rw [ofNode?]
  split
  · rfl
  · rename_i call h
    rw [hn] at h
    cases h

/-- A stanza is determined by its node. -/
theorem eq_of_node_eq : ∀ {s t : Stanza}, s.node = t.node → s = t := by
  rintro ⟨name, node, call, hcall, _, hname⟩ ⟨name', node', call', hcall', _, hname'⟩ h
  obtain rfl : node = node' := h
  obtain rfl : call = call' := Option.some.inj (hcall.symm.trans hcall')
  obtain rfl : name = name' := hname.symm.trans hname'
  rfl

theorem ofNode?_eq_some {n : Node} {s : Stanza} : ofNode? n = some s ↔ s.node = n := by
  constructor
  · intro h
    cases hn : n.invocation? with
    | none =>
        rw [ofNode?_of_none hn] at h
        cases h
    | some call =>
        rcases ofNode?_of_some hn with ⟨-, t, ht, -, hnode⟩ | ⟨-, hnone⟩
        · obtain rfl := Option.some.inj (h.symm.trans ht)
          exact hnode
        · rw [hnone] at h
          cases h
  · rintro rfl
    obtain ⟨call, hcall, hreceiver, -⟩ := s.invokes
    rcases ofNode?_of_some hcall with ⟨-, t, ht, -, hnode⟩ | ⟨hsome, -⟩
    · rw [ht, eq_of_node_eq hnode]
    · rw [hreceiver] at hsome
      cases hsome

/-- The stanza of the vocabulary that a node is. -/
theorem known?_eq_some {n : Node} {s : Stanza} :
    known? n = some s ↔ s.node = n ∧ Vocabulary.isStanzaName s.name = true := by
  rw [known?, Option.filter_eq_some_iff, ofNode?_eq_some]

/-- The nodes that are stanzas of the vocabulary. -/
theorem exists_known?_iff {n : Node} : (∃ s, known? n = some s) ↔ n.DeclaresStanza := by
  have hkind : ∀ call, n.invocation? = some call ↔
      n.kind = .send call ∨ ∃ params body, n.kind = .block ⟨call, params, body⟩ := by
    intro call
    obtain ⟨kind, span⟩ := n
    cases kind with
    | send c => simp [Node.invocation?]
    | block b =>
        obtain ⟨c, params, body⟩ := b
        simp [Node.invocation?]
    | _ => simp [Node.invocation?]
  simp only [known?_eq_some, Node.DeclaresStanza, ← hkind]
  constructor
  · rintro ⟨s, rfl, hname⟩
    obtain ⟨call, hcall, hreceiver, hmethod⟩ := s.invokes
    exact ⟨call, hcall, Option.isNone_iff_eq_none.mp hreceiver, hmethod ▸ hname⟩
  · rintro ⟨call, hcall, hreceiver, hname⟩
    exact ⟨⟨call.method, n, call, hcall, Option.isNone_iff_eq_none.mpr hreceiver, rfl⟩, rfl, hname⟩

theorem node_ne_begin (s : Stanza) : s.node.kind.name ≠ .begin := by
  obtain ⟨call, hcall, -⟩ := s.invokes
  rcases s.node.eq_begin_or_ne with ⟨children, span, hbegin⟩ | hne
  · rw [hbegin] at hcall
    cases hcall
  · exact hne

end Stanza

/-! ## The stanzas of a body -/

namespace Manifest

theorem stanzas_ofBody (token : String) (body : List Node) :
    (ofBody token body).stanzas = (Node.flattenList body).filterMap Stanza.known? := rfl

/-- The stanzas of a body, with their addresses. -/
def placedStanzas (body : List Node) : List (List Nat × Stanza) :=
  (Node.placesIn body).filterMap fun (address, n) => (Stanza.known? n).map (address, ·)

theorem mem_placedStanzas {body : List Node} {address : List Nat} {s : Stanza} :
    (address, s) ∈ placedStanzas body ↔
      Node.Opened body address s.node ∧ Vocabulary.isStanzaName s.name = true := by
  rw [placedStanzas, List.mem_filterMap]
  constructor
  · rintro ⟨⟨address', n⟩, hn, h⟩
    obtain ⟨t, ht, heq⟩ := Option.map_eq_some_iff.mp h
    obtain ⟨rfl, rfl⟩ := Prod.mk.inj heq
    obtain ⟨rfl, hname⟩ := Stanza.known?_eq_some.mp ht
    exact ⟨Node.mem_placesIn.mp hn, hname⟩
  · rintro ⟨hopened, hname⟩
    refine ⟨(address, s.node), Node.mem_placesIn.mpr hopened, ?_⟩
    dsimp only
    rw [Stanza.known?_eq_some.mpr ⟨rfl, hname⟩, Option.map_some]

theorem map_snd_placedStanzas (token : String) (body : List Node) :
    (placedStanzas body).map Prod.snd = (ofBody token body).stanzas := by
  rw [placedStanzas, stanzas_ofBody, ← Node.map_snd_placesIn, List.map_filterMap,
    List.filterMap_map]
  refine List.filterMap_congr fun p _ => ?_
  rw [Option.map_map]
  exact Option.map_id'

theorem pairwise_placedStanzas (body : List Node) :
    ((placedStanzas body).map Prod.fst).Pairwise (· < ·) := by
  rw [List.pairwise_map, placedStanzas, List.pairwise_filterMap]
  refine (Node.pairwise_placesIn body).imp fun {p q} hpq a ha b hb => ?_
  obtain ⟨s, -, rfl⟩ := Option.map_eq_some_iff.mp ha
  obtain ⟨t, -, rfl⟩ := Option.map_eq_some_iff.mp hb
  exact hpq

theorem stanzas_ofBody_append (token : String) (body more : List Node) :
    (ofBody token (body ++ more)).stanzas =
      (ofBody token body).stanzas ++ (ofBody token more).stanzas := by
  rw [stanzas_ofBody, stanzas_ofBody, stanzas_ofBody, Node.flattenList_eq_flatMap,
    Node.flattenList_eq_flatMap, Node.flattenList_eq_flatMap, List.flatMap_append,
    List.filterMap_append]

/-- A sequence has the stanzas of its statements. -/
theorem stanzas_ofBody_begin (token : String) (body : List Node) (span : Span) :
    (ofBody token [⟨.begin body, span⟩]).stanzas = (ofBody token body).stanzas := by
  show (Node.flattenList body ++ []).filterMap Stanza.known? = _
  rw [List.append_nil]
  rfl

/-- The nodes of stanzas of the vocabulary give these stanzas. -/
theorem stanzas_ofBody_map_node (token : String) {stanzas : List Stanza}
    (h : ∀ s ∈ stanzas, Vocabulary.isStanzaName s.name = true) :
    (ofBody token (stanzas.map Stanza.node)).stanzas = stanzas := by
  induction stanzas with
  | nil => rfl
  | cons s stanzas ih =>
      obtain ⟨hs, hstanzas⟩ := List.forall_mem_cons.mp h
      have hone : (ofBody token [s.node]).stanzas = [s] := by
        rw [stanzas_ofBody, Node.flattenList, Node.flatten_of_ne_begin s.node_ne_begin]
        exact List.filterMap_cons_some (Stanza.known?_eq_some.mpr ⟨rfl, hs⟩)
      rw [List.map_cons, ← List.singleton_append, stanzas_ofBody_append, hone, ih hstanzas]
      rfl

theorem isStanzaName_of_mem_ofBody {token : String} {body : List Node} {s : Stanza}
    (h : s ∈ (ofBody token body).stanzas) : Vocabulary.isStanzaName s.name = true := by
  obtain ⟨n, -, hs⟩ := List.mem_filterMap.mp h
  exact (Stanza.known?_eq_some.mp hs).2

/-- **Exactness of the selection.** The stanzas of a body stand at addresses that lead through
    sequences only, in the order of these addresses and one at each: there is one exactly where the
    address leads to an invocation of a stanza name on no receiver, it has that node, and its name
    is the method invoked. So bodies may be taken apart, wrapped in a sequence, or reduced to their
    stanzas. -/
theorem ofBody_exact (token : String) (body : List Node) :
    (∃ placed : List (List Nat × Stanza),
      placed.map Prod.snd = (ofBody token body).stanzas ∧
      (placed.map Prod.fst).Pairwise (· < ·) ∧
      (∀ address n, (∃ s, (address, s) ∈ placed ∧ s.node = n) ↔
        Node.Opened body address n ∧ n.DeclaresStanza) ∧
      ∀ address s, (address, s) ∈ placed → s.node.method? = some s.name) ∧
    (∀ more, (ofBody token (body ++ more)).stanzas =
      (ofBody token body).stanzas ++ (ofBody token more).stanzas) ∧
    (∀ span, (ofBody token [⟨.begin body, span⟩]).stanzas = (ofBody token body).stanzas) ∧
    (ofBody token ((ofBody token body).stanzas.map Stanza.node)).stanzas =
      (ofBody token body).stanzas := by
  refine ⟨⟨placedStanzas body, map_snd_placedStanzas token body, pairwise_placedStanzas body,
    ?_, ?_⟩, stanzas_ofBody_append token body, stanzas_ofBody_begin token body,
    stanzas_ofBody_map_node token fun s => isStanzaName_of_mem_ofBody⟩
  · intro address n
    rw [← Stanza.exists_known?_iff]
    simp only [mem_placedStanzas, Stanza.known?_eq_some]
    constructor
    · rintro ⟨s, ⟨hopened, hname⟩, rfl⟩
      exact ⟨hopened, s, rfl, hname⟩
    · rintro ⟨hopened, s, rfl, hname⟩
      exact ⟨s, ⟨hopened, hname⟩, rfl⟩
  · intro address s _
    obtain ⟨call, hcall, -, hname⟩ := s.invokes
    rw [Node.method?, hcall, Option.map_some, hname]

/-- Sequences are opened, blocks are not. -/
example :
    (placedStanzas [.sequence [.sequence [], .send "url" []],
      .block "on_arm" [] [] [.send "version" []]]).map (fun (address, s) => (address, s.name)) =
      [([0, 1], "url"), ([1], "on_arm")] := by
  decide

end Manifest

end CaskLint
