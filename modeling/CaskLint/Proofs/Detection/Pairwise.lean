import CaskLint.Proofs.Detection.Exactness
import CaskLint.Tree.Builders
import Mathlib.Data.List.Nodup
import Mathlib.Logic.Equiv.Basic

/-!
# Conflicts are a matter of two stanzas

  Whether a stanza is reported depends on the manifest as a whole only in so far as one of its
  stanzas clashes with it:

* **`Detector.Clash`** — the contents of one conditional block declare the name of one stanza
  that is no conditional block.
* **`conflict_iff_exists_clash`** — a stanza conflicts with a manifest when it clashes with one
  of the stanzas there. Order, number and position of the others have no part in it.

  So the findings in one manifest tell those in another one that has the same stanzas, or more,
  or fewer of them (**`findings_pairwise`**).
-/

namespace CaskLint

/-- A further item moves the items behind it by one. -/
theorem getElem?_insert {α : Type} (before after : List α) (a : α) (i : Nat) :
    (before ++ a :: after)[if i < before.length then i else i + 1]? = (before ++ after)[i]? := by
  by_cases hi : i < before.length
  · rw [if_pos hi, List.getElem?_append_left hi, List.getElem?_append_left hi]
  · have hle : before.length ≤ i := Nat.le_of_not_lt hi
    rw [if_neg hi, List.getElem?_append_right hle,
      List.getElem?_append_right (Nat.le_succ_of_le hle), Nat.succ_sub hle,
      List.getElem?_cons_succ]

namespace Detector

variable (d : Detector)

/-! ## Two stanzas -/

/-- The contents of a conditional block declare the name of a stanza that is no conditional
    block. -/
def Clash (b s : Stanza) : Prop :=
  s.name ∉ d.conditional ∧ b.name ∈ d.conditional ∧ b.block?.isSome ∧ d.Declares b.node s.name

theorem conflict_iff_exists_clash {m : Manifest} {s : Stanza} :
    d.Conflict m s ↔ ∃ b ∈ m.stanzas, d.Clash b s := by
  constructor
  · rintro ⟨hs, b, hb, hblock⟩
    exact ⟨b, hb, hs, hblock⟩
  · rintro ⟨b, hb, hs, hblock⟩
    exact ⟨hs, b, hb, hblock⟩

/-- No stanza clashes with itself: it cannot be a conditional block and none. -/
theorem not_clash_self (s : Stanza) : ¬ d.Clash s s :=
  fun ⟨hs, hb, _⟩ => hs hb

/-- Beside a single other stanza, a stanza conflicts when it clashes with that one. -/
theorem conflict_pair (token : String) {s t : Stanza} :
    d.Conflict ⟨token, [s, t]⟩ s ↔ d.Clash t s := by
  rw [conflict_iff_exists_clash]
  constructor
  · rintro ⟨b, hb, hclash⟩
    rcases List.mem_pair.mp hb with rfl | rfl
    · exact absurd hclash (d.not_clash_self b)
    · exact hclash
  · intro hclash
    exact ⟨t, List.mem_pair.mpr (Or.inr rfl), hclash⟩

/-- What conflicts with a manifest conflicts with every manifest that has its stanzas too. -/
theorem Conflict.mono {m m' : Manifest} {s : Stanza} (hsub : m.stanzas ⊆ m'.stanzas)
    (h : d.Conflict m s) : d.Conflict m' s := by
  obtain ⟨hs, b, hb, hblock⟩ := h
  exact ⟨hs, b, hsub hb, hblock⟩

/-! ## Reported positions -/

/-- A finding is a stanza of the manifest that conflicts with it. -/
theorem mem_findings {m : Manifest} {f : Finding} :
    f ∈ d.findings m ↔ m.stanzas[f.position]? = some f.stanza ∧ d.Conflict m f.stanza := by
  obtain ⟨i, s⟩ := f
  rw [findings, List.mem_map]
  constructor
  · rintro ⟨⟨s', i'⟩, hs, heq⟩
    obtain ⟨rfl, rfl⟩ := Finding.mk.inj heq
    obtain ⟨hplace, hconflict⟩ := List.mem_filter.mp hs
    exact ⟨List.mem_zipIdx_iff_getElem?.mp hplace, d.conflicts_declaredInBlocks.mp hconflict⟩
  · rintro ⟨hplace, hconflict⟩
    refine ⟨(s, i), List.mem_filter.mpr ⟨?_, ?_⟩, rfl⟩
    · exact List.mem_zipIdx_iff_getElem?.mpr hplace
    · exact d.conflicts_declaredInBlocks.mpr hconflict

/-- The positions of the stanzas that are reported. -/
def reported (m : Manifest) : List Nat := (d.findings m).map Finding.position

/-- The stanzas that are not reported, in the order of the manifest. -/
def unreported (m : Manifest) : List Stanza :=
  (m.stanzas.zipIdx.filter fun (_, i) => i ∉ d.reported m).map Prod.fst

theorem mem_reported {m : Manifest} {i : Nat} :
    i ∈ d.reported m ↔ ∃ s, m.stanzas[i]? = some s ∧ d.Conflict m s := by
  rw [reported, List.mem_map]
  constructor
  · rintro ⟨f, hf, rfl⟩
    exact ⟨f.stanza, d.mem_findings.mp hf⟩
  · rintro ⟨s, hs⟩
    exact ⟨⟨i, s⟩, d.mem_findings.mpr hs, rfl⟩

theorem mem_unreported {m : Manifest} {s : Stanza} :
    s ∈ d.unreported m ↔ ∃ i, m.stanzas[i]? = some s ∧ i ∉ d.reported m := by
  rw [unreported, List.mem_map]
  constructor
  · rintro ⟨⟨s', i⟩, hs, rfl⟩
    obtain ⟨hplace, hi⟩ := List.mem_filter.mp hs
    exact ⟨i, List.mem_zipIdx_iff_getElem?.mp hplace, of_decide_eq_true hi⟩
  · rintro ⟨i, hplace, hi⟩
    refine ⟨(s, i), List.mem_filter.mpr ⟨?_, decide_eq_true hi⟩, rfl⟩
    exact List.mem_zipIdx_iff_getElem?.mpr hplace

/-- Findings stand in the order of the stanzas. -/
theorem reported_pairwise (m : Manifest) : (d.reported m).Pairwise (· < ·) :=
  List.pairwise_lt_range.sublist (d.map_position_findings_sublist m)

/-- No finding is reported twice. -/
theorem nodup_findings (m : Manifest) : (d.findings m).Nodup :=
  List.Nodup.of_map Finding.position ((d.reported_pairwise m).imp Nat.ne_of_lt)

/-! ## Findings in related manifests -/

/-- A position is reported when the stanza there would be reported beside one of the others. -/
theorem mem_reported_iff_exists_pair {m : Manifest} (i : Fin m.stanzas.length) :
    ↑i ∈ d.reported m ↔
      ∃ j : Fin m.stanzas.length, 0 ∈ d.reported ⟨m.token, [m.stanzas[i], m.stanzas[j]]⟩ := by
  have hpair : ∀ t, 0 ∈ d.reported ⟨m.token, [m.stanzas[i], t]⟩ ↔ d.Clash t m.stanzas[i] := by
    intro t
    rw [mem_reported, ← d.conflict_pair m.token]
    exact ⟨fun ⟨_, hs, h⟩ => Option.some.inj hs ▸ h, fun h => ⟨_, rfl, h⟩⟩
  have hplace : m.stanzas[i.val]? = some m.stanzas[i] := List.getElem?_eq_getElem i.isLt
  rw [mem_reported, hplace]
  simp only [hpair]
  constructor
  · rintro ⟨s, hs, h⟩
    obtain rfl := Option.some.inj hs
    obtain ⟨b, hb, hclash⟩ := d.conflict_iff_exists_clash.mp h
    obtain ⟨j, hj, rfl⟩ := List.getElem_of_mem hb
    exact ⟨⟨j, hj⟩, hclash⟩
  · rintro ⟨j, hclash⟩
    exact ⟨_, rfl, d.conflict_iff_exists_clash.mpr ⟨_, List.getElem_mem j.isLt, hclash⟩⟩

/-- Where one manifest lists the stanzas of another one in a different order, the findings move
    with their stanzas. -/
theorem perm_findings {m m' : Manifest} {σ : Equiv.Perm Nat}
    (hσ : ∀ i, m'.stanzas[i]? = m.stanzas[σ i]?) :
    (d.findings m).Perm ((d.findings m').map fun f => ⟨σ f.position, f.stanza⟩) := by
  -- the stanzas are the same, so they conflict with the same ones
  have hsub : m'.stanzas ⊆ m.stanzas := by
    intro s hs
    obtain ⟨i, hi⟩ := List.mem_iff_getElem?.mp hs
    exact List.mem_of_getElem? ((hσ i).symm.trans hi)
  have hsub' : m.stanzas ⊆ m'.stanzas := by
    intro s hs
    obtain ⟨i, hi⟩ := List.mem_iff_getElem?.mp hs
    refine List.mem_of_getElem? (i := σ.symm i) ?_
    rw [hσ, Equiv.apply_symm_apply, hi]
  have hmoved : (fun f : Finding => (⟨σ f.position, f.stanza⟩ : Finding)).Injective := by
    rintro ⟨i, s⟩ ⟨j, t⟩ h
    obtain ⟨hi, hs⟩ := Finding.mk.inj h
    exact congrArg₂ Finding.mk (σ.injective hi) hs
  refine (List.perm_ext_iff_of_nodup (d.nodup_findings m)
    ((d.nodup_findings m').map hmoved)).mpr fun f => ?_
  rw [mem_findings, List.mem_map]
  constructor
  · rintro ⟨hplace, hconflict⟩
    refine ⟨⟨σ.symm f.position, f.stanza⟩, d.mem_findings.mpr ⟨?_, hconflict.mono d hsub'⟩, ?_⟩
    · rw [hσ, Equiv.apply_symm_apply, hplace]
    · rw [Equiv.apply_symm_apply]
  · rintro ⟨f', hf', rfl⟩
    obtain ⟨hplace, hconflict⟩ := d.mem_findings.mp hf'
    exact ⟨(hσ _).symm.trans hplace, hconflict.mono d hsub⟩

/-- A further stanza moves the findings behind it by one and takes none away. -/
theorem mem_reported_insert {token : String} {before after : List Stanza} (t : Stanza) {i : Nat}
    (h : i ∈ d.reported ⟨token, before ++ after⟩) :
    (if i < before.length then i else i + 1) ∈ d.reported ⟨token, before ++ t :: after⟩ := by
  obtain ⟨s, hplace, hconflict⟩ := d.mem_reported.mp h
  have hsub : before ++ after ⊆ before ++ t :: after :=
    ((List.sublist_cons_self t after).append_left before).subset
  exact d.mem_reported.mpr ⟨s, (getElem?_insert before after t i).trans hplace,
    hconflict.mono d hsub⟩

/-- Without the stanzas that are reported there is nothing to report. -/
theorem findings_unreported (m : Manifest) : d.findings ⟨m.token, d.unreported m⟩ = [] := by
  refine List.eq_nil_iff_forall_not_mem.mpr fun f hf => ?_
  obtain ⟨hplace, hconflict⟩ := d.mem_findings.mp hf
  have hsub : d.unreported m ⊆ m.stanzas := by
    intro s hs
    obtain ⟨i, hi, -⟩ := d.mem_unreported.mp hs
    exact List.mem_of_getElem? hi
  -- what is left conflicts with the whole manifest as well, but then it was reported there
  obtain ⟨i, hi, hnot⟩ := d.mem_unreported.mp (List.mem_of_getElem? hplace)
  exact hnot (d.mem_reported.mpr ⟨f.stanza, hi, hconflict.mono d hsub⟩)

/-- **Conflicts are pairwise.** A stanza is reported exactly when it would be reported beside a
    single one of the others. So another order of the stanzas moves the findings along and
    changes none, a further stanza takes no finding about the others away, and without the
    reported stanzas there is nothing to report. -/
theorem findings_pairwise :
    (∀ (m : Manifest) (i : Fin m.stanzas.length), ↑i ∈ d.reported m ↔
      ∃ j : Fin m.stanzas.length, 0 ∈ d.reported ⟨m.token, [m.stanzas[i], m.stanzas[j]]⟩) ∧
    (∀ m : Manifest, (d.reported m).Pairwise (· < ·)) ∧
    (∀ (m m' : Manifest) (σ : Equiv.Perm Nat), (∀ i, m'.stanzas[i]? = m.stanzas[σ i]?) →
      (d.findings m).Perm ((d.findings m').map fun f => ⟨σ f.position, f.stanza⟩)) ∧
    (∀ (token : String) (before after : List Stanza) (t : Stanza) (i : Nat),
      i ∈ d.reported ⟨token, before ++ after⟩ →
        (if i < before.length then i else i + 1) ∈ d.reported ⟨token, before ++ t :: after⟩) ∧
    ∀ m : Manifest, d.findings ⟨m.token, d.unreported m⟩ = [] := by
  refine ⟨?_, d.reported_pairwise, ?_, ?_, d.findings_unreported⟩
  · intro m i
    exact d.mem_reported_iff_exists_pair i
  · intro m m' σ hσ
    exact d.perm_findings hσ
  · intro token before after t i h
    exact d.mem_reported_insert t h

end Detector

/-! ## Two orders of the same stanzas -/

/-- A stanza without arguments. -/
def Stanza.plain (name : String) : Stanza := ⟨name, .send name [], _, rfl, rfl, rfl⟩

/-- A block whose only statement is a stanza without arguments. -/
def Stanza.around (block name : String) : Stanza :=
  ⟨block, .block block [] [] [.send name []], _, rfl, rfl, rfl⟩

/-- A stanza before and after the conditional block that declares its name, and with a further
    stanza in front. -/
theorem findings_pairwise_swapped :
    let version := Stanza.plain "version"
    let onArm := Stanza.around "on_arm" "version"
    let d := Detector.standard
    (∀ i, [onArm, version][i]? = [version, onArm][Equiv.swap 0 1 i]?) ∧
    0 ∈ d.reported ⟨"foo", [] ++ [version, onArm]⟩ ∧
    (d.findings ⟨"foo", [version, onArm]⟩).Perm ((d.findings ⟨"foo", [onArm, version]⟩).map
      fun f => ⟨Equiv.swap 0 1 f.position, f.stanza⟩) ∧
    1 ∈ d.reported ⟨"foo", [] ++ .plain "url" :: [version, onArm]⟩ := by
  intro version onArm d
  have hswap : ∀ i, [onArm, version][i]? = [version, onArm][Equiv.swap 0 1 i]? := by
    intro i
    match i with
    | 0 => rfl
    | 1 => rfl
    | i + 2 => rw [Equiv.swap_apply_of_ne_of_ne (by omega) (by omega)]; rfl
  have hfirst : 0 ∈ d.reported ⟨"foo", [] ++ [version, onArm]⟩ := by decide
  obtain ⟨-, -, hpermuted, hinserted, -⟩ := d.findings_pairwise
  exact ⟨hswap, hfirst, hpermuted _ _ _ hswap, hinserted _ _ _ (.plain "url") _ hfirst⟩

end CaskLint
