import CaskLint.Document.Basic
import CaskLint.Proofs.Detection.Exactness
import Mathlib.Data.List.Nodup

/-!
# The walk reaches every node once

  A node is held by another one in some **`Role`**: as its receiver, as the second of its arguments,
  as the key of a pair. A list of roles leads down from a node (`Node.at?`), and a position and such
  a list down from a document (`Document.at?`), so every place of a tree has an address of its own,
  told by the fields of the nodes and not by their children.

  A list **enumerates** what lies at some places (`Enumerates`) if it has one entry for each place
  where something lies. The children of a kind enumerate what the kind holds
  (**`Kind.enumerates_children`**: one case for each constructor, and the only place that opens
  them). From this step the walk of a document enumerates all its nodes with their depths
  (**`Document.enumerates_walk`**).
-/

namespace CaskLint

/-! ## Entries for places -/

section

variable {π ρ α β : Type} {at? : π → Option α}

/-- The list has one entry for each place where something lies, which is what lies there. -/
def Enumerates (at? : π → Option α) (as : List α) : Prop :=
  ∃ placed : List (π × α), placed.map Prod.snd = as ∧ (placed.map Prod.fst).Nodup ∧
    ∀ p a, (p, a) ∈ placed ↔ at? p = some a

/-- What may lie at a single place. -/
theorem enumerates_only [DecidableEq π] (p : π) (o : Option α) :
    Enumerates (fun q => if q = p then o else none) o.toList := by
  cases o with
  | none => exact ⟨[], rfl, List.nodup_nil, by simp⟩
  | some a => exact ⟨[(p, a)], rfl, List.nodup_singleton _, by simp [eq_comm]⟩

/-- The entries of a list lie at its positions. -/
theorem enumerates_getElem? (as : List α) : Enumerates (fun i : Nat => as[i]?) as := by
  refine ⟨as.zipIdx.map fun (a, i) => (i, a), ?_, ?_, ?_⟩
  · rw [List.map_map]
    exact List.zipIdx_map_fst 0 as
  · rw [List.map_map]
    show (as.zipIdx.map Prod.snd).Nodup
    rw [List.zipIdx_map_snd]
    exact List.nodup_range'
  · intro i a
    simp [List.mem_zipIdx_iff_getElem?]

/-- The places may be named otherwise, and there may be others where nothing lies. -/
theorem Enumerates.renamed {as : List α} {below? : ρ → Option α} (h : Enumerates below? as)
    (name : ρ → π) (hname : name.Injective) (hat : ∀ r, at? (name r) = below? r)
    (honly : ∀ p, (at? p).isSome → ∃ r, name r = p) : Enumerates at? as := by
  obtain ⟨placed, rfl, hnodup, hplaced⟩ := h
  refine ⟨placed.map fun (r, a) => (name r, a), ?_, ?_, ?_⟩
  · rw [List.map_map]
    rfl
  · rw [List.map_map]
    show (placed.map (name ∘ Prod.fst)).Nodup
    rw [← List.map_map]
    exact hnodup.map hname
  · intro p a
    constructor
    · intro h
      obtain ⟨⟨r, a'⟩, hmem, heq⟩ := List.mem_map.mp h
      obtain ⟨rfl, rfl⟩ := Prod.mk.inj heq
      rw [hat]
      exact (hplaced r a').mp hmem
    · intro h
      obtain ⟨r, rfl⟩ := honly p (h ▸ rfl)
      rw [hat] at h
      exact List.mem_map_of_mem ((hplaced r a).mpr h)

/-- Two lists in a row, for places of two sorts. -/
theorem Enumerates.append {as bs : List α} {left? right? : π → Option α}
    (has : Enumerates left? as) (hbs : Enumerates right? bs)
    (hat : ∀ p, at? p = (left? p).or (right? p))
    (hapart : ∀ p, (left? p).isSome → right? p = none) : Enumerates at? (as ++ bs) := by
  obtain ⟨placed, rfl, hnodup, hplaced⟩ := has
  obtain ⟨placed', rfl, hnodup', hplaced'⟩ := hbs
  refine ⟨placed ++ placed', List.map_append, ?_, ?_⟩
  · rw [List.map_append]
    refine hnodup.append hnodup' fun p hp hp' => ?_
    obtain ⟨⟨p, a⟩, ha, rfl⟩ := List.mem_map.mp hp
    obtain ⟨⟨p', b⟩, hb, rfl⟩ := List.mem_map.mp hp'
    have hnone := hapart p' (((hplaced _ _).mp ha) ▸ rfl)
    exact nomatch hnone.symm.trans ((hplaced' _ _).mp hb)
  · intro p a
    rw [List.mem_append, hplaced, hplaced', hat, Option.or_eq_some_iff]
    constructor
    · rintro (hleft | hright)
      · exact Or.inl hleft
      · cases hleft : left? p with
        | none => exact Or.inr ⟨rfl, hright⟩
        | some a' => exact nomatch (hapart p (hleft ▸ rfl)).symm.trans hright
    · exact Or.imp_right And.right

/-- What lies below the entries, for places made of two parts. -/
theorem Enumerates.flatMap {as : List α} (has : Enumerates at? as) {below? : α → ρ → Option β}
    {list : α → List β} (h : ∀ a ∈ as, Enumerates (below? a) (list a)) :
    Enumerates (fun (p, r) => (at? p).bind (below? · r)) (as.flatMap list) := by
  obtain ⟨placed, rfl, hnodup, hplaced⟩ := has
  choose! placedIn hsnd hnodups hplaceds using h
  have hmem : ∀ {p a}, (p, a) ∈ placed → a ∈ placed.map Prod.snd :=
    fun h => List.mem_map_of_mem (f := Prod.snd) h
  refine ⟨placed.flatMap fun (p, a) => (placedIn a).map fun (r, b) => ((p, r), b), ?_, ?_, ?_⟩
  · rw [List.map_flatMap, List.flatMap_map]
    refine List.flatMap_congr fun (p, a) ha => ?_
    rw [List.map_map]
    exact hsnd a (hmem ha)
  · rw [List.map_flatMap, List.nodup_flatMap]
    constructor
    · rintro ⟨p, a⟩ ha
      have hinjective : (fun r : ρ => (p, r)).Injective := fun r r' h => (Prod.mk.inj h).2
      have := (hnodups a (hmem ha)).map hinjective
      rw [List.map_map] at this ⊢
      exact this
    · -- the first parts differ
      refine (List.pairwise_map.mp hnodup).imp ?_
      rintro ⟨p, a⟩ ⟨p', a'⟩ hne place hplace hplace'
      simp only [List.map_map, List.mem_map] at hplace hplace'
      obtain ⟨_, -, rfl⟩ := hplace
      obtain ⟨_, -, heq⟩ := hplace'
      exact hne (Prod.mk.inj heq).1.symm
  · rintro ⟨p, r⟩ b
    rw [List.mem_flatMap, Option.bind_eq_some_iff]
    constructor
    · rintro ⟨⟨p', a⟩, ha, h⟩
      obtain ⟨⟨r', b'⟩, hb, heq⟩ := List.mem_map.mp h
      cases heq
      exact ⟨a, (hplaced p a).mp ha, (hplaceds a (hmem ha) r b).mp hb⟩
    · rintro ⟨a, ha, hb⟩
      have hpa := (hplaced p a).mpr ha
      exact ⟨(p, a), hpa, List.mem_map_of_mem ((hplaceds a (hmem hpa) r b).mpr hb)⟩

end

/-! ## Roles -/

/-- As what a node is held by another one; where there may be several, with a position. -/
inductive Role where
  | receiver
  | argument (i : Nat)
  | body
  | child (i : Nat)
  | part (i : Nat)
  | item (i : Nat)
  | pair (i : Nat)
  | key
  | value
deriving DecidableEq

/-- What an invocation holds in a role. -/
def Invocation.held? (call : Invocation) : Role → Option Node
  | .receiver => call.receiver
  | .argument i => call.args[i]?
  | _ => none

/-- What a block call holds in a role. -/
def BlockCall.held? (b : BlockCall) : Role → Option Node
  | .body => b.body
  | role => b.call.held? role

/-- What a kind holds in a role. -/
def Kind.held? : Kind → Role → Option Node
  | .send call, role => call.held? role
  | .block b, role => b.held? role
  | .begin children, .child i => children[i]?
  | .interpolation parts, .part i => parts[i]?
  | .array items, .item i => items[i]?
  | .hash pairs, .pair i => pairs[i]?
  | .pair key _, .key => some key
  | .pair _ value, .value => some value
  | .other _ children, .child i => children[i]?
  | _, _ => none

/-- The node that a list of roles leads to, from a node downwards. -/
def Node.at? (n : Node) : List Role → Option Node
  | [] => some n
  | role :: roles => (n.kind.held? role).bind (·.at? roles)

/-- The node that the position of a statement and a list of roles lead to. -/
def Document.at? (d : Document) : Nat × List Role → Option Node
  | (i, roles) => d.body[i]?.bind (·.at? roles)

/-! ## Children -/

theorem Invocation.enumerates_operands (call : Invocation) :
    Enumerates call.held? call.operands := by
  have hreceiver := enumerates_only Role.receiver call.receiver
  have hargs : Enumerates (fun | Role.argument i => call.args[i]? | _ => none) call.args := by
    refine (enumerates_getElem? call.args).renamed Role.argument (fun i j h => Role.argument.inj h)
      (fun i => rfl) ?_
    intro role hrole
    cases role <;> simp at hrole ⊢
  refine hreceiver.append hargs ?_ ?_
  · intro role
    cases role <;> simp [held?]
  · intro role hrole
    cases role <;> simp at hrole ⊢

theorem BlockCall.enumerates_parts (b : BlockCall) : Enumerates b.held? b.parts := by
  have hbody := enumerates_only Role.body b.body
  refine b.call.enumerates_operands.append hbody ?_ ?_
  · intro role
    cases role <;> simp [held?, Invocation.held?]
  · intro role hrole
    cases role <;> simp [Invocation.held?] at hrole ⊢

/-- **The children of a kind are what the kind holds**, each once. -/
theorem Kind.enumerates_children (kind : Kind) : Enumerates kind.held? kind.children := by
  cases kind with
  | send call => exact call.enumerates_operands
  | block b => exact b.enumerates_parts
  | literal value => exact ⟨[], rfl, List.nodup_nil, by simp [held?]⟩
  | pair key value =>
      refine ⟨[(.key, key), (.value, value)], rfl, by simp, ?_⟩
      intro role n
      cases role <;> simp [held?, eq_comm]
  | begin children | other label children =>
      refine (enumerates_getElem? children).renamed Role.child (fun i j h => Role.child.inj h)
        (fun i => rfl) ?_
      intro role hrole
      cases role <;> simp [held?] at hrole ⊢
  | interpolation parts =>
      refine (enumerates_getElem? parts).renamed Role.part (fun i j h => Role.part.inj h)
        (fun i => rfl) ?_
      intro role hrole
      cases role <;> simp [held?] at hrole ⊢
  | array items =>
      refine (enumerates_getElem? items).renamed Role.item (fun i j h => Role.item.inj h)
        (fun i => rfl) ?_
      intro role hrole
      cases role <;> simp [held?] at hrole ⊢
  | hash pairs =>
      refine (enumerates_getElem? pairs).renamed Role.pair (fun i j h => Role.pair.inj h)
        (fun i => rfl) ?_
      intro role hrole
      cases role <;> simp [held?] at hrole ⊢

/-! ## The walk -/

/-- A node and all nodes below it are walked over, each once and with its depth. -/
theorem Node.enumerates_walk (n : Node) (depth : Nat) :
    Enumerates (fun roles => (n.at? roles).map (depth + roles.length, ·)) (n.walk depth) := by
  induction n using Node.induction_on_children generalizing depth with
  | step n ih =>
      rw [Node.walk_eq]
      have hbelow := n.kind.enumerates_children.flatMap fun c hc => ih c hc (depth + 1)
      have hhere := enumerates_only ([] : List Role) (some (depth, n))
      have hthere : Enumerates
          (fun roles : List Role =>
            if roles = [] then none else (n.at? roles).map (depth + roles.length, ·))
          (n.kind.children.flatMap (·.walk (depth + 1))) := by
        refine hbelow.renamed (fun (role, roles) => role :: roles) ?_ ?_ ?_
        · rintro ⟨role, roles⟩ ⟨role', roles'⟩ h
          simpa using h
        · rintro ⟨role, roles⟩
          have hdepth : depth + (role :: roles).length = depth + 1 + roles.length := by
            rw [List.length_cons]
            omega
          rw [if_neg (List.cons_ne_nil role roles), Node.at?, hdepth, Option.map_bind]
          rfl
        · intro roles hroles
          cases roles with
          | nil => simp at hroles
          | cons role roles => exact ⟨(role, roles), rfl⟩
      refine hhere.append hthere ?_ ?_
      · intro roles
        cases roles <;> simp [Node.at?]
      · intro roles hroles
        cases roles <;> simp at hroles ⊢

/-- **The walk over a document meets every node of it**, each once and with its depth. -/
theorem Document.enumerates_walk (d : Document) :
    Enumerates (fun (i, roles) => (d.at? (i, roles)).map (roles.length, ·))
      (d.body.flatMap (·.walk 0)) := by
  have hwalks := (enumerates_getElem? d.body).flatMap fun n _ => n.enumerates_walk 0
  refine hwalks.renamed id Function.injective_id ?_ fun p _ => ⟨p, rfl⟩
  rintro ⟨i, roles⟩
  simp only [id_eq, Document.at?, Option.map_bind, Nat.zero_add]
  rfl

end CaskLint
