import CaskLint.Proofs.Document.Modes
import CaskLint.Proofs.Json.Surroundings
import CaskLint.Proofs.Tree.Roles

/-!
# The places where a node stands

  A node stands in a document as a statement, or in some role below one. Where its text stands is
  told by what surrounds it: one frame after the other is an array or object in which some field of
  the format goes on (**`Enters`**, **`EntersKind`**), and the fields that hold nodes tell the role
  (**`Holds`**). So surroundings lead to a place of the tree (**`LeadsTo`**), whatever else stands
  around the hole and in whatever order.

  What is read of a value in its surroundings is settled by what is read of the value alone
  (**`Carries`**). Each frame carries what is read of its field, and these compose
  (`Carries.trans`). By induction over the roles a document carries what is read at any of its
  places (**`LeadsTo.carries`**).
-/

namespace CaskLint

/-! ## Fields that hold nodes -/

/-- The name of the field in which a node of this role stands. -/
def Role.field : Role → String
  | .receiver => "receiver"
  | .argument _ => "args"
  | .body => "body"
  | .child _ => "children"
  | .part _ => "parts"
  | .item _ => "items"
  | .pair _ => "pairs"
  | .key => "key"
  | .value => "value"

/-- The position of a node among those in the field. -/
def Role.position : Role → Nat
  | .argument i | .child i | .part i | .item i | .pair i => i
  | .receiver | .body | .key | .value => 0

namespace Document

open Record Json

/-- A node, or what may be left out. -/
def Shape.IsNode (s : Shape) : Prop := s = .node ∨ s = .optionalNode

/-- The node at a position of a value. -/
def Shape.nodeAt? : (s : Shape) → s.Value → Nat → Option Node
  | .node, n, _ => some n
  | .optionalNode, n, _ => n
  | .nodes, (ns : List Node), i => ns[i]?
  | _, _, _ => none

/-- The field of a document that holds its statements. -/
def bodyField : Field Shape.Value := ⟨"body", .nodes, some ([] : List Node)⟩

/-- The field of a block call that holds its invocation. -/
def callField : Field Shape.Value := ⟨"call", .invocation, none⟩

/-! ## Places in a sketch -/

/-- An array or object with these fields, in which one of them goes on around the hole. -/
inductive Enters (fs : Fields) : Surroundings → Field Shape.Value → Surroundings → Prop
  | member {before after : List (Quotation × Sketch)} {q : Quotation} {inner : Surroundings}
      {f : Field Shape.Value} (hf : f ∈ fs) (hq : q.read = .ok f.name) :
      Enters fs (.member before q inner after) f inner
  | item {before after : List Sketch} {inner : Surroundings} {f : Field Shape.Value}
      (hf : fs[before.length]? = some f) : Enters fs (.item before inner after) f inner

/-- A kind of node of this type, in which one of its fields goes on around the hole. -/
inductive EntersKind (name : KindName) : Surroundings → Field Shape.Value → Surroundings → Prop
  | member {before after : List (Quotation × Sketch)} {q : Quotation} {inner : Surroundings}
      {f : Field Shape.Value} {t : Sketch} (htype : valuesAt (before ++ after) "type" = [t])
      (ht : typeOf? t = some name) (hf : f ∈ kindFields name) (hq : q.read = .ok f.name) :
      EntersKind name (.member before q inner after) f inner
  | item {before after : List Sketch} {inner : Surroundings} {f : Field Shape.Value} {t : Sketch}
      (ht : typeOf? t = some name) (hf : (kindFields name)[before.length]? = some f) :
      EntersKind name (.item (t :: before) inner after) f inner

/-- In the value of a field the node at a position goes on around the hole. -/
inductive Reaches : Shape → Surroundings → Nat → Shape → Surroundings → Prop
  | node {c : Surroundings} : Reaches .node c 0 .node c
  | optionalNode {c : Surroundings} : Reaches .optionalNode c 0 .optionalNode c
  | item {before after : List Sketch} {inner : Surroundings} :
      Reaches .nodes (.item before inner after) before.length .node inner

/-- In a kind of node the node of a role goes on around the hole. -/
inductive Holds : Surroundings → Role → Shape → Surroundings → Prop
  | field {name : KindName} {c inner node : Surroundings} {f : Field Shape.Value} {role : Role}
      {s : Shape} (h : EntersKind name c f inner) (hrole : f.name = role.field)
      (hreach : Reaches f.shape inner role.position s node) : Holds c role s node
  /-- An operand of the invocation in a block call. -/
  | operand {c call inner node : Surroundings} {f : Field Shape.Value} {role : Role} {s : Shape}
      (hcall : EntersKind .block c callField call) (h : Enters invocationFields call f inner)
      (hrole : f.name = role.field) (hreach : Reaches f.shape inner role.position s node) :
      Holds c role s node

/-- In a node the roles lead to the hole. -/
inductive Leads : Shape → Surroundings → List Role → Shape → Prop
  | here {s : Shape} : Leads s .hole [] s
  | step {s s' hole : Shape} {c kind node : Surroundings} {role : Role} {roles : List Role}
      (hkind : Enters nodeFields c kindField kind) (hrole : Holds kind role s' node)
      (h : Leads s' node roles hole) : Leads s c (role :: roles) hole

/-- In a document the position of a statement and the roles lead to the hole. -/
def LeadsTo (c : Surroundings) (place : Nat × List Role) (hole : Shape) : Prop :=
  ∃ body node, Enters fields c bodyField body ∧ Reaches .nodes body place.1 .node node ∧
    Leads .node node place.2 hole

/-! ## What surroundings carry -/

section

variable {α β γ : Type} {P : Sketch → α → Prop} {Q : Sketch → β → Prop} {S : Sketch → γ → Prop}
  {R : α → β → Prop} {T : β → γ → Prop}

/-- What `P` gives of a value in its surroundings is settled by what `Q` gives of it: something only
    if `Q` does, which `R` relates to it; and if something of any value, then something of
    every value of which `Q` gives something. -/
structure Carries (P : Sketch → α → Prop) (Q : Sketch → β → Prop) (R : α → β → Prop) : Prop where
  down : ∀ {v x}, P v x → ∃ y, Q v y ∧ R x y
  up : ∀ {v w x y}, P w x → Q v y → ∃ x', P v x'

theorem Carries.refl {R : α → α → Prop} (hR : ∀ x, R x x) : Carries P P R where
  down hx := ⟨_, hx, hR _⟩
  up _ hy := ⟨_, hy⟩

/-- What one layer carries and the next one carries, both carry. -/
theorem Carries.trans (h : Carries P Q R) (h' : Carries Q S T) {U : α → γ → Prop}
    (hU : ∀ x y z, R x y → T y z → U x z) : Carries P S U where
  down hx := by
    obtain ⟨y, hy, hR⟩ := h.down hx
    obtain ⟨z, hz, hT⟩ := h'.down hy
    exact ⟨z, hz, hU _ y z hR hT⟩
  up hx hz := by
    obtain ⟨y, hy, -⟩ := h.down hx
    obtain ⟨y', hy'⟩ := h'.up hy hz
    exact h.up hx hy'

theorem Carries.mono (h : Carries P Q R) {U : α → β → Prop} (hU : ∀ x y, R x y → U x y) :
    Carries P Q U where
  down hx := by
    obtain ⟨y, hy, hR⟩ := h.down hx
    exact ⟨y, hy, hU _ y hR⟩
  up := h.up

/-- What is made of something that is carried. -/
theorem Carries.built {build : β → α} {condition : Prop}
    (hP : ∀ v x, P v x ↔ condition ∧ ∃ y, Q v y ∧ build y = x) (h : Carries Q S T) :
    Carries P S fun x z => ∃ y, build y = x ∧ T y z where
  down hx := by
    obtain ⟨-, y, hy, hbuild⟩ := (hP _ _).mp hx
    obtain ⟨z, hz, hT⟩ := h.down hy
    exact ⟨z, hz, y, hbuild, hT⟩
  up hx hz := by
    obtain ⟨hcondition, y, hy, -⟩ := (hP _ _).mp hx
    obtain ⟨y', hy'⟩ := h.up hy hz
    exact ⟨build y', (hP _ _).mpr ⟨hcondition, y', hy', rfl⟩⟩

end

/-- What a record that is made of its values has for a field. -/
def Made {α : Type} {fs : Fields} (build : Values Shape.Value fs → α) (f : Field Shape.Value)
    (x : α) (y : f.shape.Value) : Prop :=
  ∃ xs, build xs = x ∧ ⟨f, y⟩ ∈ Values.entries fs xs

/-! ### Records -/

section

variable {mode : Mode} {fs : Fields} {f : Field Shape.Value} {inner : Surroundings}

/-- Members carry what is read of the value of a field. -/
theorem carries_members {words : List String} {before after : List (Quotation × Sketch)}
    {q : Quotation} (hnames : (fs.map Field.name).Nodup) (hf : f ∈ fs)
    (hq : q.read = .ok f.name) :
    Carries (fun v => ReadsMembers mode words fs (before ++ (q, inner.fill v) :: after))
      (fun v => Reads mode f.shape (inner.fill v))
      fun xs x => ⟨f, x⟩ ∈ Values.entries fs xs where
  down hxs := by
    obtain ⟨x, hentry, hx⟩ := hxs.2.exists_entry hf
    rw [valuesAt_append_cons_of_eq hq] at hx
    exact ⟨x, hx.of_append_cons.2.2, hentry⟩
  up {v w} xs y hxs hy := by
    -- the member that is replaced is the only one of its name
    obtain ⟨x, -, hx⟩ := hxs.2.exists_entry hf
    rw [valuesAt_append_cons_of_eq hq] at hx
    obtain ⟨hbefore, hafter, -⟩ := hx.of_append_cons
    have hvalue : valuesAt (before ++ (q, inner.fill v) :: after) f.name = [inner.fill v] := by
      rw [valuesAt_append_cons_of_eq hq, hbefore, hafter]
      rfl
    have hothers : ∀ g ∈ fs, g.name ≠ f.name →
        valuesAt (before ++ (q, inner.fill v) :: after) g.name =
          valuesAt (before ++ (q, inner.fill w) :: after) g.name := by
      intro g _ hname
      exact valuesAt_replaced (read_ne_of_ne hq hname.symm) before after _ _
    obtain ⟨ys, hys⟩ := hxs.2.exists_replaced hnames hf (Or.inl ⟨_, hvalue, hy⟩) hothers
    refine ⟨ys, fun m hm => ?_, hys⟩
    rcases mem_cases_of_replaced hm with hm | rfl
    · exact hxs.1 m hm
    · exact ⟨f.name, hq, fun _ hfield => absurd (List.mem_map_of_mem hf) hfield⟩

/-- Items carry what is read of the item of a field. -/
theorem carries_items {before after : List Sketch} (hf : fs[before.length]? = some f) :
    Carries (fun v => ItemsOf (Reads mode) fs (before ++ inner.fill v :: after))
      (fun v => Reads mode f.shape (inner.fill v))
      fun xs x => ⟨f, x⟩ ∈ Values.entries fs xs where
  down hxs := by
    obtain ⟨x, hentry, hx⟩ := hxs.exists_entry hf (getElem?_append_cons_self before after _)
    exact ⟨x, hx, hentry⟩
  up hxs hy := hxs.exists_replaced hf hy

/-- **A record carries what is read of its fields.** -/
theorem Enters.carries {s : Shape} {r : Composed s.Value} (hrecord : s.record? = some r)
    {c : Surroundings} (h : Enters r.fields c f inner) :
    Carries (fun v => Reads mode s (c.fill v)) (fun v => Reads mode f.shape (inner.fill v))
      (Made r.build f) := by
  cases h with
  | member hf hq =>
      exact .built (fun v x => (reads_record_object hrecord).trans and_assoc.symm)
        (carries_members (Composed.nodup hrecord) hf hq)
  | item hf =>
      exact .built (fun v x => (reads_record_array hrecord).trans and_assoc.symm)
        (carries_items hf)

/-- **A document carries what is read of its fields.** -/
theorem Enters.carries_document {c : Surroundings} (h : Enters fields c f inner) :
    Carries (fun v => Loads (c.fill v)) (fun v => Reads .streamed f.shape (inner.fill v))
      (Made build f) := by
  cases h with
  | member hf hq => exact .built (fun v d => loads_object) (carries_members nodup_fields hf hq)
  | item hf => exact .built (fun v d => loads_array) (carries_items hf)

/-- **A kind carries what is read of its fields**, which are buffered. -/
theorem EntersKind.carries {name : KindName} {c : Surroundings} (h : EntersKind name c f inner) :
    Carries (fun v => Reads mode .kind (c.fill v)) (fun v => Reads .buffered f.shape (inner.fill v))
      (Made (buildKind name) f) := by
  cases h with
  | @member before after q _ _ t htype ht hf hq =>
      -- the type stands beside the member
      have htypes : ∀ v, valuesAt (before ++ (q, inner.fill v) :: after) "type" = [t] := by
        intro v
        have hne := read_ne_of_ne hq (type_not_mem_kindFields name f hf)
        rw [valuesAt_append_cons_of_ne hne, htype]
      have hkind : ∀ v k,
          Reads mode .kind ((Surroundings.member before q inner after).fill v) k ↔
            Tags mode t name ∧ ∃ xs, ReadsMembers .buffered ["type"] (kindFields name)
              (before ++ (q, inner.fill v) :: after) xs ∧ buildKind name xs = k := by
        intro v k
        refine reads_kind_object.trans ⟨?_, ?_⟩
        · rintro ⟨-, t', name', xs, htype', hname, hxs, hk⟩
          obtain rfl := List.singleton_inj.mp ((htypes v).symm.trans htype')
          obtain rfl := Option.some.inj ((typeOf?_of_tags hname).symm.trans ht)
          exact ⟨hname, xs, hxs, hk⟩
        · rintro ⟨hname, xs, hxs, hk⟩
          exact ⟨rfl, t, name, xs, htypes v, hname, hxs, hk⟩
      exact .built hkind (carries_members (nodup_kindFields name) hf hq)
  | @item before after _ _ t ht hf =>
      have hkind : ∀ v k,
          Reads mode .kind ((Surroundings.item (t :: before) inner after).fill v) k ↔
            Tags mode t name ∧ ∃ xs, ItemsOf (Reads .buffered) (kindFields name)
              (before ++ inner.fill v :: after) xs ∧ buildKind name xs = k := by
        intro v k
        refine reads_kind_array.trans ⟨?_, ?_⟩
        · rintro ⟨-, t', rest, name', xs, hvs, hname, hxs, hk⟩
          obtain ⟨rfl, rfl⟩ := List.cons.inj hvs
          obtain rfl := Option.some.inj ((typeOf?_of_tags hname).symm.trans ht)
          exact ⟨hname, xs, hxs, hk⟩
        · rintro ⟨hname, xs, hxs, hk⟩
          exact ⟨rfl, t, _, name, xs, rfl, hname, hxs, hk⟩
      exact .built hkind (carries_items hf)

/-- **The value of a field carries what is read of its nodes.** -/
theorem Reaches.carries {s s' : Shape} {c c' : Surroundings} {i : Nat} (h : Reaches s c i s' c') :
    Carries (fun v => Reads mode s (c.fill v)) (fun v => Reads mode s' (c'.fill v))
      fun x y => s.nodeAt? x i = s'.nodeAt? y 0 := by
  cases h with
  | node | optionalNode => exact .refl fun x => rfl
  | @item before after inner =>
      constructor
      · intro v ns hns
        obtain ⟨-, hns⟩ := reads_nodes_array.mp hns
        obtain ⟨left, n, right, rfl, hleft, hn, -⟩ := forall₂_append_cons_iff.mp hns
        refine ⟨n, hn, ?_⟩
        rw [hleft.length_eq]
        exact getElem?_append_cons_self left right n
      · rintro v w ns (n : Node) hns hn
        obtain ⟨-, hns⟩ := reads_nodes_array.mp hns
        obtain ⟨left, n', right, rfl, hleft, -, hright⟩ := forall₂_append_cons_iff.mp hns
        exact ⟨left ++ n :: right, reads_nodes_array.mpr
          ⟨rfl, forall₂_append_cons_iff.mpr ⟨left, n, right, rfl, hleft, hn, hright⟩⟩⟩

end

/-! ### Roles -/

/-- **An invocation holds in a role what its field has.** -/
theorem Made.held?_invocation {f : Field Shape.Value} {call : Invocation} {y : f.shape.Value}
    (h : Made buildInvocation f call y) {role : Role} (hrole : f.name = role.field) :
    call.held? role = f.shape.nodeAt? y role.position := by
  obtain ⟨⟨receiver, method, args, rest⟩, rfl, hentry⟩ := h
  simp only [invocationFields, Values.entries, List.mem_cons, List.not_mem_nil, or_false] at hentry
  -- a field with the name of the role is the one that is held, and the others have other names
  rcases hentry with hentry | hentry | hentry
  all_goals
    cases hentry
    cases role <;> first | rfl | simp [Role.field] at hrole

/-- **A kind holds in a role what its field has.** -/
theorem Made.held?_kind {name : KindName} {f : Field Shape.Value} {k : Kind} {y : f.shape.Value}
    (h : Made (buildKind name) f k y) {role : Role} (hrole : f.name = role.field) :
    k.held? role = f.shape.nodeAt? y role.position := by
  obtain ⟨xs, rfl, hentry⟩ := h
  cases name with
  | send => exact Made.held?_invocation ⟨xs, rfl, hentry⟩ hrole
  | block =>
      obtain ⟨call, params, body, rest⟩ := xs
      simp only [kindFields, blockFields, Values.entries, List.mem_cons, List.not_mem_nil,
        or_false] at hentry
      rcases hentry with hentry | hentry | hentry
      all_goals
        cases hentry
        cases role <;> first | rfl | simp [Role.field] at hrole
  | begin | interpolation | literal | array | hash =>
      obtain ⟨nodes, rest⟩ := xs
      simp only [kindFields, Values.entries, List.mem_cons, List.not_mem_nil, or_false] at hentry
      cases hentry
      cases role <;> first | rfl | simp [Role.field] at hrole
  | pair | other =>
      obtain ⟨first, second, rest⟩ := xs
      simp only [kindFields, Values.entries, List.mem_cons, List.not_mem_nil, or_false] at hentry
      rcases hentry with hentry | hentry
      all_goals
        cases hentry
        cases role <;> first | rfl | simp [Role.field] at hrole

/-- **A block call holds in a role what the field of its invocation has.** -/
theorem Made.held?_call {k : Kind} {call : Invocation} {f : Field Shape.Value} {y : f.shape.Value}
    (hk : Made (buildKind .block) callField k call) (h : Made buildInvocation f call y)
    {role : Role} (hrole : f.name = role.field) :
    k.held? role = f.shape.nodeAt? y role.position := by
  rw [← h.held?_invocation hrole]
  -- the body is no operand
  have hbody : role ≠ .body := by
    rintro rfl
    obtain ⟨xs, -, hentry⟩ := h
    have hf := Values.mem_of_mem_entries hentry
    simp only [invocationFields, List.mem_cons, List.not_mem_nil, or_false] at hf
    rcases hf with rfl | rfl | rfl <;> simp [Role.field] at hrole
  obtain ⟨⟨call', params, body, rest⟩, rfl, hentry⟩ := hk
  obtain rfl : call' = call :=
    Values.eq_of_mem_entries (nodup_kindFields .block) List.mem_cons_self hentry
  cases role <;> first | rfl | exact absurd rfl hbody

/-- A kind carries the nodes that it holds, which are buffered. -/
theorem Holds.carries {mode : Mode} {c node : Surroundings} {role : Role} {s : Shape}
    (h : Holds c role s node) :
    Carries (fun v => Reads mode .kind (c.fill v)) (fun v => Reads .buffered s (node.fill v))
      fun k y => k.held? role = s.nodeAt? y 0 := by
  cases h with
  | field h hrole hreach =>
      exact h.carries.trans hreach.carries fun k x y hk hy => (hk.held?_kind hrole).trans hy
  | @operand _ call inner _ f _ _ hcall h hrole hreach =>
      have hrecord : Shape.record? .invocation = some ⟨invocationFields, buildInvocation⟩ := rfl
      have hoperand : Carries (fun v => Reads mode .kind (c.fill v))
          (fun v => Reads .buffered f.shape (inner.fill v))
          fun k x => k.held? role = f.shape.nodeAt? x role.position :=
        hcall.carries.trans (h.carries hrecord) fun k call x hk hx => hk.held?_call hx hrole
      exact hoperand.trans hreach.carries fun k x y hk hy => hk.trans hy

theorem Reaches.isNode {s s' : Shape} {c c' : Surroundings} {i : Nat} (h : Reaches s c i s' c') :
    s'.IsNode := by
  cases h with
  | node | item => exact Or.inl rfl
  | optionalNode => exact Or.inr rfl

theorem Holds.isNode {c node : Surroundings} {role : Role} {s : Shape} (h : Holds c role s node) :
    s.IsNode := by
  cases h with
  | field _ _ hreach => exact hreach.isNode
  | operand _ _ _ hreach => exact hreach.isNode

/-- A node carries its kind. -/
theorem Enters.carries_kind {mode : Mode} {s : Shape} (hs : s.IsNode) {c kind : Surroundings}
    (h : Enters nodeFields c kindField kind) :
    Carries (fun v => Reads mode s (c.fill v)) (fun v => Reads mode .kind (kind.fill v))
      fun x k => (s.nodeAt? x 0).map Node.kind = some k := by
  rcases hs with rfl | rfl
  · have hrecord : Shape.record? .node = some ⟨nodeFields, buildNode⟩ := rfl
    refine (h.carries hrecord).mono fun n k hk => ?_
    obtain ⟨⟨k', span, rest⟩, rfl, hentry⟩ := hk
    exact congrArg some (Values.eq_of_mem_entries nodup_nodeFields List.mem_cons_self hentry)
  · have hrecord : Shape.record? .optionalNode = some ⟨nodeFields, some ∘ buildNode⟩ := rfl
    refine (h.carries hrecord).mono fun n k hk => ?_
    obtain ⟨⟨k', span, rest⟩, rfl, hentry⟩ := hk
    exact congrArg some (Values.eq_of_mem_entries nodup_nodeFields List.mem_cons_self hentry)

theorem Leads.isNode {s hole : Shape} {c : Surroundings} {roles : List Role}
    (h : Leads s c roles hole) (hs : s.IsNode) : hole.IsNode := by
  induction h with
  | here => exact hs
  | step _ hrole _ ih => exact ih hrole.isNode

/-- How a node is read that stands below another one in these roles. -/
def Mode.below (mode : Mode) : List Role → Mode
  | [] => mode
  | _ :: _ => .buffered

theorem Mode.below_buffered (roles : List Role) : Mode.buffered.below roles = .buffered := by
  cases roles <;> rfl

/-- **A node carries what stands in it**, however far below. -/
theorem Leads.carries {mode : Mode} {s hole : Shape} {c : Surroundings} {roles : List Role}
    (h : Leads s c roles hole) (hs : s.IsNode) :
    Carries (fun v => Reads mode s (c.fill v)) (Reads (mode.below roles) hole)
      fun x y => (s.nodeAt? x 0).bind (·.at? roles) = hole.nodeAt? y 0 := by
  induction h generalizing mode with
  | @here s => exact .refl fun x => Option.bind_fun_some (s.nodeAt? x 0)
  | @step s s' hole c kind node role roles hkind hrole _ ih =>
      -- whatever stands below the first role is buffered, in whatever way the node itself is read
      have hbelow := @ih .buffered hrole.isNode
      rw [Mode.below_buffered] at hbelow
      have hheld : Carries (fun v => Reads mode .kind (kind.fill v)) (Reads .buffered hole)
          fun k y => (k.held? role).bind (·.at? roles) = hole.nodeAt? y 0 :=
        hrole.carries.trans hbelow fun k x y hx hy => by rw [hx, hy]
      refine (hkind.carries_kind hs).trans hheld fun x k y hk hy => ?_
      obtain ⟨n, hn, rfl⟩ := Option.map_eq_some_iff.mp hk
      rw [hn]
      exact hy

/-- **A document carries what stands at its places.** -/
theorem LeadsTo.carries {c : Surroundings} {place : Nat × List Role} {hole : Shape}
    (h : LeadsTo c place hole) :
    Carries (fun v => Loads (c.fill v)) (Reads (Mode.streamed.below place.2) hole)
      fun d y => d.at? place = hole.nodeAt? y 0 := by
  obtain ⟨body, node, hbody, hreach, hleads⟩ := h
  have hnode : Carries (fun v => Reads .streamed .nodes (body.fill v))
      (Reads (Mode.streamed.below place.2) hole)
      fun (ns : List Node) y => ns[place.1]?.bind (·.at? place.2) = hole.nodeAt? y 0 := by
    refine hreach.carries.trans (hleads.carries (Or.inl rfl)) fun ns n y hn hy => ?_
    rw [← hy, ← hn]
    rfl
  refine hbody.carries_document.trans hnode fun d ns y hns hy => ?_
  obtain ⟨⟨token, source, ns', rest⟩, rfl, hentry⟩ := hns
  obtain rfl : ns' = ns := Values.eq_of_mem_entries nodup_fields
    (.tail _ (.tail _ (.head _))) hentry
  exact hy

/-! ## Nodes in place -/

namespace LeadsTo

variable {c : Surroundings} {place : Nat × List Role} {hole : Shape}

/-- What stands at a place gives what a node does. -/
theorem exists_reads_iff (h : LeadsTo c place hole) {v : Sketch} (hv : v ≠ .null)
    {o : Option Node} :
    (∃ y, Reads (Mode.streamed.below place.2) hole v y ∧ hole.nodeAt? y 0 = o) ↔
      ∃ x, Reads (Mode.streamed.below place.2) .node v x ∧ o = some x := by
  obtain ⟨body, node, -, -, hleads⟩ := h
  -- only below a statement a node may be left out
  have hhole : hole = .node ∨ (Mode.streamed.below place.2 = .buffered ∧ hole = .optionalNode) := by
    have hnode := hleads.isNode (Or.inl rfl)
    generalize place.2 = roles at hleads ⊢
    cases hleads with
    | here => exact Or.inl rfl
    | step => exact hnode.imp_right fun hoptional => ⟨rfl, hoptional⟩
  rcases hhole with rfl | ⟨hmode, rfl⟩
  · exact exists_congr fun x => and_congr_right fun _ => eq_comm
  · rw [hmode]
    constructor
    · rintro ⟨y, hy, rfl⟩
      exact (reads_optionalNode_iff hv).mp hy
    · rintro hx
      exact ⟨o, (reads_optionalNode_iff hv).mpr hx, rfl⟩

/-- **A document that loads has at the place what its text there is read as.** -/
theorem at?_of_loads (h : LeadsTo c place hole) {v : Sketch} (hv : v ≠ .null) {d : Document}
    (hd : Loads (c.fill v) d) :
    ∃ x, Reads (Mode.streamed.below place.2) .node v x ∧ d.at? place = some x := by
  obtain ⟨y, hy, hat⟩ := h.carries.down hd
  exact (h.exists_reads_iff hv).mp ⟨y, hy, hat.symm⟩

/-- **A document that loads with anything at the place loads with any node there.** -/
theorem exists_loads (h : LeadsTo c place hole) {v w : Sketch} (hv : v ≠ .null) {d : Document}
    (hd : Loads (c.fill w) d) {x : Node}
    (hx : Reads (Mode.streamed.below place.2) .node v x) : ∃ d, Loads (c.fill v) d := by
  obtain ⟨y, hy, -⟩ := (h.exists_reads_iff hv).mpr ⟨x, hx, rfl⟩
  exact h.carries.up hd hy

/-- A document and its body are around every place. -/
theorem two_le_depth (h : LeadsTo c place hole) : 2 ≤ c.depth := by
  obtain ⟨body, node, hbody, hreach, -⟩ := h
  have hbodyDepth : 1 ≤ body.depth := by
    generalize place.1 = i at hreach
    cases hreach with
    | item => exact Nat.succ_le_succ (Nat.zero_le _)
  cases hbody with
  | member | item => exact Nat.succ_le_succ hbodyDepth

end LeadsTo

end Document

end CaskLint
