import CaskLint.Proofs.Document.Rearranged
import CaskLint.Proofs.Json.Prefixes

/-!
# A text that ends too early is no document

  Almost all members may be left out and the lists may be of any length, so what is left of a text
  often looks like a smaller document. Every reader here is compared with itself: where it reads
  a sketch, it fails on what is left of that sketch, if at all, for a fault of the text and not
  for want of a member (**`CutSafe`**). The induction is over what is left, in step with the
  reader; up to the cut both readings are the same, and behind it the end of the array or object
  is missed before anything else is.

  A fault at the top is never passed over (`faulty_of_loads`), so a text that is cut does fail
  (**`ofText_truncated`**).
-/

namespace CaskLint

open Record Json

/-- The failure is that of a text which is not JSON. -/
def ReadError.IsFault : ReadError → Prop
  | .fault _ => True
  | .mismatch _ => False

theorem failsOnly_orFault {α : Type} (x : Except Fault α) :
    FailsOnly ReadError.IsFault (orFault x) :=
  failsOnly_mapError (fun _ => trivial) x

namespace Document

/-! ## Values that are cut -/

/-- Where a sketch is read, what is left of it fails for a fault only. -/
def CutSafe (read : (s : Shape) → Sketch → Except ReadError s.Value) : Prop :=
  ∀ s v' v, v'.Cut v → ∀ x, read s v = .ok x → FailsOnly ReadError.IsFault (read s v')

/-- No value is a text of which only a part is there. -/
theorem read_ne_ok {q : Quotation} (h : q.fault.isSome) (s : String) : q.read ≠ .ok s := by
  intro hread
  rw [Quotation.fault_eq_none_of_read hread] at h
  exact nomatch h

/-- Offsets are the only values that are numbers. -/
theorem read_of_number {s : Shape} {n : Numeral} {j : Json} (hj : n.read = .ok j) {x : s.Value}
    (h : read s j = .ok x) :
    s = .offset ∧ ∃ i, n.integer? = some i ∧ 0 ≤ i ∧ i < 4294967296 := by
  rw [Numeral.read, Numeral.value?] at hj
  cases hinteger : n.integer? with
  | some i =>
      rw [hinteger] at hj
      obtain rfl := Except.ok.inj hj
      cases s with
      | offset =>
          have hoffset : readOffset i = .ok x := h
          rw [readOffset] at hoffset
          split at hoffset
          · rename_i hi
            exact ⟨rfl, i, rfl, hi.1, hi.2⟩
          · cases hoffset
      | _ => cases h
  | none =>
      rw [hinteger] at hj
      cases hfloat : n.float? with
      | none =>
          rw [hfloat] at hj
          cases hj
      | some y =>
          rw [hfloat] at hj
          obtain rfl := Except.ok.inj hj
          cases s <;> cases h

theorem cutSafe_streamLeaf : CutSafe streamLeaf := by
  intro s v' v hcut x h
  cases hcut with
  | broken f _ | brokenNumber f n => exact failsOnly_error trivial
  | @number n' n hn =>
      obtain ⟨j, hj, h⟩ := bind_eq_ok.mp h
      obtain ⟨rfl, i, hi, hlow, hhigh⟩ :=
        read_of_number (orFault_eq_ok.mp hj) (orMismatch_eq_ok.mp h)
      obtain ⟨i', hi', hlow', hle⟩ := hn.integer? hi hlow
      have hread : (Sketch.number n').value 0 = .ok (.integer i') := by
        rw [Sketch.value, Numeral.read, Numeral.value?, hi']
      have hoffset : readOffset i' = .ok (.ofNat i'.toNat) := if_pos ⟨hlow', by omega⟩
      show FailsOnly _ (orFault ((Sketch.number n').value 0) >>= _)
      rw [hread]
      show FailsOnly _ (orMismatch (readOffset i'))
      rw [hoffset]
      exact failsOnly_ok _
  | text q hq =>
      refine (failsOnly_orFault _).bind fun j hj => ?_
      obtain ⟨text, htext, -⟩ := map_eq_ok.mp (orFault_eq_ok.mp hj)
      exact absurd htext (read_ne_ok hq text)
  | array f fault _ | object f fault _ => cases h

/-! ## Records that are cut -/

section

variable {fs : Fields}

theorem streamItems_cut {read : (s : Shape) → Sketch → Except ReadError s.Value}
    (hread : CutSafe read) {vs' vs : List Sketch} (hcut : CutItems vs' vs) {label : String}
    {fault : Option Fault} {index : Nat} {xs : Values Shape.Value fs}
    (h : streamItems read label fault index fs vs = .ok xs) (f : Fault) :
    FailsOnly ReadError.IsFault (streamItems read label (some f) index fs vs') := by
  have hend : ∀ (fs : Fields) index,
      FailsOnly ReadError.IsFault (streamItems read label (some f) index fs []) := by
    intro fs index
    cases fs <;> exact failsOnly_error trivial
  induction vs' generalizing vs index fs with
  | nil => exact hend fs index
  | cons v' vs' ih =>
      cases fs with
      | nil => exact failsOnly_error trivial
      | cons field fs =>
          cases hcut with
          | inside vs hv =>
              obtain ⟨x, hx, -⟩ := bind_eq_ok.mp h
              refine (hread _ _ _ hv x hx).bind fun x' _ => ?_
              exact (hend fs _).bind fun _ _ => failsOnly_ok _
          | after v hvs =>
              obtain ⟨x, hx, h⟩ := bind_eq_ok.mp h
              obtain ⟨xs, hxs, -⟩ := bind_eq_ok.mp h
              rw [streamItems, hx]
              exact (ih hvs hxs).bind fun _ _ => failsOnly_ok _

theorem streamSlots_cut {read : (s : Shape) → Sketch → Except ReadError s.Value}
    (hread : CutSafe read) {ms' ms : List (Quotation × Sketch)} (hcut : CutMembers ms' ms)
    {slots slots' : Slots Shape.Value fs} (h : streamSlots read fs slots ms = .ok slots') :
    FailsOnly ReadError.IsFault (streamSlots read fs slots ms') := by
  induction ms' generalizing ms slots with
  | nil => exact failsOnly_ok _
  | cons m ms' ih =>
      cases hcut with
      | inName v' ms hq =>
          refine (failsOnly_orFault _).bind fun name hname => ?_
          exact absurd (orFault_eq_ok.mp hname) (read_ne_ok hq name)
      | @inValue q v' v ms hv =>
          obtain ⟨name, hname, h⟩ := bind_eq_ok.mp h
          rw [streamSlots, hname, ok_bind]
          rcases Slots.assign?_cases ReadError.mismatch name slots with
            hnone | hset | ⟨f, -, -, put, hput⟩
          · rw [hnone]
            exact (failsOnly_orFault _).bind fun _ _ => failsOnly_ok _
          · rw [hset] at h
            cases h
          · rw [hput] at h ⊢
            obtain ⟨slots'', hx, -⟩ := bind_eq_ok.mp h
            obtain ⟨x, hx, -⟩ := map_eq_ok.mp hx
            exact ((hread f.shape v' v hv x hx).map put).bind fun _ _ => failsOnly_ok _
      | after m hms =>
          obtain ⟨q, v⟩ := m
          obtain ⟨name, hname, h⟩ := bind_eq_ok.mp h
          rw [streamSlots, hname, ok_bind]
          cases hassign : Slots.assign? ReadError.mismatch name (fun s => read s v) fs slots with
          | none =>
              rw [hassign] at h
              obtain ⟨u, hskip, h⟩ := bind_eq_ok.mp h
              rw [hskip]
              exact ih hms h
          | some assigned =>
              rw [hassign] at h
              obtain ⟨slots, rfl, h⟩ := bind_eq_ok.mp h
              exact ih hms h

theorem streamRecord_cut {readAt : Stream} (hread : ∀ n, CutSafe (readAt n)) {v' v : Sketch}
    (hcut : v'.Cut v) {label : String} {n : Nat} {xs : Values Shape.Value fs}
    (h : streamRecord readAt label fs n v = .ok xs) :
    FailsOnly ReadError.IsFault (streamRecord readAt label fs n v') := by
  cases hcut with
  | broken f _ => cases n <;> exact failsOnly_error trivial
  | array f fault hitems =>
      cases n with
      | zero => exact nomatch h
      | succ n => exact streamItems_cut (hread n) hitems h f
  | object f fault hmembers =>
      cases n with
      | zero => exact nomatch h
      | succ n =>
          obtain ⟨slots, hslots, -⟩ := bind_eq_ok.mp h
          refine (streamSlots_cut (hread n) hmembers hslots).bind fun _ _ => ?_
          exact (failsOnly_orFault _).bind fun _ hend => nomatch hend
  | _ =>
      -- what is no array and no object is no record
      rcases eq_of_streamRecord h with ⟨vs, fault, heq⟩ | ⟨ms, fault, heq⟩
      · exact nomatch heq
      · exact nomatch heq

end

/-! ## Kinds that are cut -/

theorem streamTag_cut {v' v : Sketch} (hcut : v'.Cut v) {name : KindName}
    (h : streamTag v = .ok name) : FailsOnly ReadError.IsFault (streamTag v') := by
  cases hcut with
  | broken f _ => exact failsOnly_error trivial
  | text q hq =>
      refine (failsOnly_orFault _).bind fun word hword => ?_
      exact absurd (orFault_eq_ok.mp hword) (read_ne_ok hq word)
  | _ =>
      rw [streamTag.eq_def] at h
      exact absurd h streamWrongType_ne_ok

theorem streamTagged_cut {ms' ms : List (Quotation × Sketch)} (hcut : CutMembers ms' ms)
    {n : Nat} {tag : Option KindName} {tagged : Option KindName × List (String × Json)}
    (h : streamTagged n tag ms = .ok tagged) :
    FailsOnly ReadError.IsFault (streamTagged n tag ms') := by
  induction ms' generalizing ms tag tagged with
  | nil => exact failsOnly_ok _
  | cons m ms' ih =>
      cases hcut with
      | inName v' ms hq =>
          refine (failsOnly_orFault _).bind fun name hname => ?_
          exact absurd (orFault_eq_ok.mp hname) (read_ne_ok hq name)
      | @inValue q v' v ms hv =>
          obtain ⟨name, hname, h⟩ := bind_eq_ok.mp h
          rw [streamTagged, hname, ok_bind]
          split at h
          · rename_i htype
            rw [if_pos htype]
            cases tag with
            | some tag => cases h
            | none =>
                obtain ⟨tag, htag, -⟩ := bind_eq_ok.mp h
                exact (streamTag_cut hv htag).bind fun _ _ => failsOnly_ok _
          · rename_i htype
            rw [if_neg htype]
            refine (failsOnly_orFault _).bind fun value _ => ?_
            exact (failsOnly_ok _).bind fun _ _ => failsOnly_ok _
      | after m hms =>
          obtain ⟨q, v⟩ := m
          obtain ⟨name, hname, h⟩ := bind_eq_ok.mp h
          rw [streamTagged, hname, ok_bind]
          split at h
          · rename_i htype
            rw [if_pos htype]
            cases tag with
            | some tag => cases h
            | none =>
                obtain ⟨tag, htag, h⟩ := bind_eq_ok.mp h
                show FailsOnly _ (streamTag v >>= _)
                rw [htag]
                exact ih hms h
          · rename_i htype
            rw [if_neg htype]
            obtain ⟨value, -, h⟩ := bind_eq_ok.mp h
            obtain ⟨tagged, htagged, -⟩ := bind_eq_ok.mp h
            refine (failsOnly_orFault _).bind fun _ _ => ?_
            exact (ih hms htagged).bind fun _ _ => failsOnly_ok _

theorem streamKind_cut {v' v : Sketch} (hcut : v'.Cut v) {n : Nat} {kind : Kind}
    (h : streamKind n v = .ok kind) : FailsOnly ReadError.IsFault (streamKind n v') := by
  -- that the text ends is noticed before the kind is read from its members
  have hend : ∀ {α : Type} (f : Fault) (next : Unit → Except ReadError α),
      FailsOnly ReadError.IsFault (orFault (failOn (some f)) >>= next) :=
    fun f next => failsOnly_error trivial
  cases hcut with
  | broken f _ => cases n <;> exact failsOnly_error trivial
  | @array vs' vs f fault hitems =>
      cases n with
      | zero => exact nomatch h
      | succ n =>
          cases hitems with
          | between => exact hend f _
          | inside vs hv =>
              obtain ⟨name, hname, -⟩ := bind_eq_ok.mp h
              refine (streamTag_cut hv hname).bind fun _ _ => ?_
              exact (failsOnly_orFault _).bind fun _ _ => hend f _
          | after v _ =>
              obtain ⟨name, hname, -⟩ := bind_eq_ok.mp h
              show FailsOnly _ (streamTag v >>= _)
              rw [hname]
              exact (failsOnly_orFault _).bind fun _ _ => hend f _
  | @object ms' ms f fault hmembers =>
      cases n with
      | zero => exact nomatch h
      | succ n =>
          obtain ⟨⟨tag, members⟩, htagged, -⟩ := bind_eq_ok.mp h
          exact (streamTagged_cut hmembers htagged).bind fun _ _ => hend f _
  | _ =>
      rw [streamKind.eq_def] at h
      cases n <;> exact absurd h streamWrongType_ne_ok

/-! ## Documents that are cut -/

theorem cutSafe_streamInNode (n : Nat) : CutSafe (streamInNode n) := by
  intro s v' v hcut x h
  cases s with
  | kind => exact streamKind_cut hcut h
  | span =>
      obtain ⟨xs, hxs, -⟩ := map_eq_ok.mp h
      exact (streamRecord_cut (fun _ => cutSafe_streamLeaf) hcut hxs).map buildSpan
  | _ => exact cutSafe_streamLeaf _ v' v hcut x h

theorem streamNode_cut {v' v : Sketch} (hcut : v'.Cut v) {n : Nat} {node : Node}
    (h : streamNode n v = .ok node) : FailsOnly ReadError.IsFault (streamNode n v') := by
  obtain ⟨xs, hxs, -⟩ := map_eq_ok.mp h
  exact (streamRecord_cut cutSafe_streamInNode hcut hxs).map buildNode

theorem streamNodes_cut {vs' vs : List Sketch} (hcut : CutItems vs' vs) {n : Nat}
    {nodes : List Node} (h : streamNodes n vs = .ok nodes) :
    FailsOnly ReadError.IsFault (streamNodes n vs') := by
  induction vs' generalizing vs nodes with
  | nil => exact failsOnly_ok _
  | cons v' vs' ih =>
      cases hcut with
      | inside vs hv =>
          obtain ⟨node, hnode, -⟩ := bind_eq_ok.mp h
          refine (streamNode_cut hv hnode).bind fun _ _ => ?_
          exact (failsOnly_ok _).bind fun _ _ => failsOnly_ok _
      | after v hvs =>
          obtain ⟨node, hnode, h⟩ := bind_eq_ok.mp h
          obtain ⟨rest, hrest, -⟩ := bind_eq_ok.mp h
          rw [streamNodes, hnode]
          exact (ih hvs hrest).bind fun _ _ => failsOnly_ok _

theorem cutSafe_streamInDocument (n : Nat) : CutSafe (streamInDocument n) := by
  intro s v' v hcut x h
  cases s with
  | nodes =>
      cases hcut with
      | broken f _ => cases n <;> exact failsOnly_error trivial
      | array f fault hitems =>
          cases n with
          | zero => exact nomatch h
          | succ n =>
              obtain ⟨nodes, hnodes, -⟩ := bind_eq_ok.mp h
              refine (streamNodes_cut hitems hnodes).bind fun _ _ => ?_
              exact (failsOnly_orFault _).bind fun _ _ => failsOnly_ok _
      | _ =>
          rw [streamInDocument.eq_def] at h
          cases n <;> exact absurd h streamWrongType_ne_ok
  | _ => exact cutSafe_streamLeaf _ v' v hcut x h

/-- What is left of a document is at fault. -/
theorem faulty_of_cut {v' v : Sketch} (hcut : v'.Cut v) {n : Nat}
    {xs : Values Shape.Value fields}
    (h : streamRecord streamInDocument (recordLabel "CaskDocument") fields n v = .ok xs) :
    v'.faulty = true := by
  rcases eq_of_streamRecord h with ⟨vs, fault, rfl⟩ | ⟨ms, fault, rfl⟩ <;> cases hcut <;> rfl

/-- **A text that ends too early does not load**, and fails for a fault of the text: however much
    of it is left, as long as something else than blanks is missing. -/
theorem ofText_truncated {text : String} {d : Document} (h : ofText text = .ok d)
    {cut rest : String} (htext : text = cut ++ rest)
    (hrest : ∃ c ∈ rest.toList, isBlank c = false) : ∃ f, ofText cut = .error (.fault f) := by
  obtain ⟨s', houtline, hcut⟩ := cut_outline (spells_of_ofText h) htext hrest
  obtain ⟨xs, hxs, -⟩ := bind_eq_ok.mp h
  have hfaults : FailsOnly ReadError.IsFault (ofText cut) := by
    rw [ofText, houtline]
    exact (streamRecord_cut cutSafe_streamInDocument hcut hxs).bind fun _ _ => failsOnly_ok _
  cases hload : ofText cut with
  | ok d' =>
      -- the end of the outermost array or object is missing
      obtain ⟨-, hloads⟩ := loads_of_ofOutline hload
      rw [houtline] at hloads
      exact absurd ((faulty_of_loads hloads).symm.trans (faulty_of_cut hcut hxs)) Bool.false_ne_true
  | error e =>
      have hfault := hfaults e hload
      cases e with
      | fault f => exact ⟨f, rfl⟩
      | mismatch m => exact hfault.elim

/-- Only the closing brace is missing, and nothing is missing that a document must have. -/
theorem ofText_truncated_brace :
    let text := (Json.object [("token", .text "t")]).compact
    let cut := String.ofList (text.toList.take 12)
    let rest := String.ofList (text.toList.drop 12)
    ofText text = .ok ⟨"t", none, []⟩ ∧ text = cut ++ rest ∧
      (∃ c ∈ rest.toList, isBlank c = false) ∧ ∃ f, ofText cut = .error (.fault f) := by
  intro text cut rest
  have hload : ofText text = .ok ⟨"t", none, []⟩ := by
    rw [ofText, outline_compact]
    rfl
  have htext : text = cut ++ rest := by
    rw [← String.toList_inj, String.toList_append, String.toList_ofList, String.toList_ofList,
      List.take_append_drop]
  have hrest : ∃ c ∈ rest.toList, isBlank c = false := by
    rw [String.toList_ofList, show text.toList = _ from String.toList_ofList]
    exact ⟨'\x7d', List.mem_singleton_self _, rfl⟩
  exact ⟨hload, htext, hrest, ofText_truncated hload htext hrest⟩

end Document

end CaskLint
