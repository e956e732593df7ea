import CaskLint.Proofs.Check.Gathering
import CaskLint.Proofs.Document.RoundTrip
import CaskLint.Proofs.Source.Positions
import CaskLint.Tree.Builders

/-!
# The JSON report says all there is to say

  Each offense is an object of the report. What such an object says about it:

* **`Offense.Told`** — the names of the members in their order, without a repeated one, and for
  each name the value that stands under it. The two places are there when they are known.
* **`Offense.Told.unique`** — so much determines the offense.

  There is a report as long as every file can be named in it, and it is read back as these objects
  (**`render_json`**, **`ofText_pretty_objects`**). Together with where the two places of an
  offense come from (**`location_ofFinding`**), this is **`ReportFormat.render_json_exact`**.
-/

namespace CaskLint

open Json

/-! ## Objects of the report -/

namespace Offense

/-- The names of the members, depending on whether the span and the location are known. -/
def memberNames (span location : Bool) : List String :=
  ["file", "cop", "stanza"] ++ (if span then ["start", "end"] else []) ++
    (if location then ["line", "column"] else []) ++ ["message"]

theorem nodup_memberNames : ∀ span location, (memberNames span location).Nodup := by decide

/-- What the members of an object say about an offense, with this name for its file. -/
structure Told (o : Offense) (file : String) (members : List (String × Json)) : Prop where
  names : members.map Prod.fst = memberNames o.span.isSome o.location.isSome
  nodup : (members.map Prod.fst).Nodup
  file : members.lookup "file" = some (.text file)
  cop : members.lookup "cop" = some (.text checkName)
  stanza : members.lookup "stanza" = some (.text o.stanza)
  start : members.lookup "start" = o.span.map fun s => .integer s.start.toNat
  stop : members.lookup "end" = o.span.map fun s => .integer s.stop.toNat
  line : members.lookup "line" = o.location.map fun l => .integer l.line.toNat
  column : members.lookup "column" = o.location.map fun l => .integer l.column.toNat
  message : members.lookup "message" = some (.text o.message)

/-- The members of an offense say what is known about it. -/
theorem told_members (o : Offense) (name : String) : o.Told name (o.members name) := by
  obtain ⟨file, stanza, span, location, message⟩ := o
  -- which members there are depends on the two places alone
  cases span with
  | none =>
      cases location with
      | none => exact ⟨rfl, nodup_memberNames false false, rfl, rfl, rfl, rfl, rfl, rfl, rfl, rfl⟩
      | some l => exact ⟨rfl, nodup_memberNames false true, rfl, rfl, rfl, rfl, rfl, rfl, rfl, rfl⟩
  | some s =>
      cases location with
      | none => exact ⟨rfl, nodup_memberNames true false, rfl, rfl, rfl, rfl, rfl, rfl, rfl, rfl⟩
      | some l => exact ⟨rfl, nodup_memberNames true true, rfl, rfl, rfl, rfl, rfl, rfl, rfl, rfl⟩

/-- Two places are the same when the numbers that are written for them are. -/
theorem eq_of_map_integer {α : Type} {x y : Option α} {first second : α → Nat}
    (hinj : ∀ a b, first a = first b → second a = second b → a = b)
    (hfirst : x.map (fun a => Json.integer (first a)) = y.map fun a => Json.integer (first a))
    (hsecond : x.map (fun a => Json.integer (second a)) = y.map fun a => Json.integer (second a)) :
    x = y := by
  cases x with
  | none =>
      cases y with
      | none => rfl
      | some b => exact nomatch hfirst
  | some a =>
      cases y with
      | none => exact nomatch hfirst
      | some b =>
          have ha := Int.ofNat.inj (Json.integer.inj (Option.some.inj hfirst))
          have hb := Int.ofNat.inj (Json.integer.inj (Option.some.inj hsecond))
          rw [hinj a b ha hb]

/-- No two offenses in files with names are told by the same members. -/
theorem Told.unique {o o' : Offense} {name name' : String} {members : List (String × Json)}
    (hname : o.file = .text name) (hname' : o'.file = .text name') (h : o.Told name members)
    (h' : o'.Told name' members) : o = o' := by
  have htext : ∀ {s s' : String} {v : Option Json}, v = some (.text s) → v = some (.text s') →
      s = s' := fun hv hv' => Json.text.inj (Option.some.inj (hv.symm.trans hv'))
  have hspan : o.span = o'.span := by
    refine eq_of_map_integer ?_ (h.start.symm.trans h'.start) (h.stop.symm.trans h'.stop)
    rintro ⟨start, stop⟩ ⟨start', stop'⟩ hstart hstop
    exact congrArg₂ Span.mk (UInt32.toNat_inj.mp hstart) (UInt32.toNat_inj.mp hstop)
  have hlocation : o.location = o'.location := by
    refine eq_of_map_integer ?_ (h.line.symm.trans h'.line) (h.column.symm.trans h'.column)
    rintro ⟨line, column⟩ ⟨line', column'⟩ hline hcolumn
    exact congrArg₂ Location.mk (UInt32.toNat_inj.mp hline) (UInt32.toNat_inj.mp hcolumn)
  obtain ⟨file, stanza, span, location, message⟩ := o
  obtain ⟨file', stanza', span', location', message'⟩ := o'
  obtain rfl := htext h.file h'.file
  obtain rfl : file = file' := hname.trans hname'.symm
  obtain rfl := htext h.stanza h'.stanza
  obtain rfl := htext h.message h'.message
  exact congrArg₂ (Offense.mk file stanza · · message) hspan hlocation

/-! ## Reading the report -/

/-- A text, or a number that fits 64 bits. -/
inductive IsPlain : Json → Prop where
  | text (s : String) : IsPlain (.text s)
  | integer {n : Nat} : n < 18446744073709551616 → IsPlain (.integer n)

theorem IsPlain.fits {v : Json} (h : IsPlain v) (n : Nat) : v.fits n = true := by
  cases h with
  | text s => rfl
  | integer hn =>
      have hdepth : decide (0 ≤ n) = true := decide_eq_true (Nat.zero_le n)
      show (decide (0 ≤ n) && (Json.integer _).inRange) = true
      rw [hdepth, inRange_integer (by omega) (by omega)]
      rfl

theorem IsPlain.reread_eq {v : Json} (h : IsPlain v) : v.reread = v := by
  cases h with
  | text s => rfl
  | integer hn => exact reread_integer (by omega) (by omega)

/-- All members of an object of the report are plain. -/
theorem isPlain_of_mem (o : Offense) (name : String) : ∀ m ∈ o.members name, IsPlain m.2 := by
  have hword : ∀ n : UInt32, IsPlain (.integer n.toNat) := fun n =>
    .integer (Nat.lt_trans n.toNat_lt (by omega))
  rw [members]
  simp only [List.forall_mem_append, List.forall_mem_cons, List.not_mem_nil, false_imp_iff,
    implies_true, and_true]
  refine ⟨⟨⟨⟨.text _, .text _, .text _⟩, ?_⟩, ?_⟩, .text _⟩
  · cases o.span with
    | none => exact fun _ hm => nomatch hm
    | some s =>
        exact List.forall_mem_cons.mpr
          ⟨hword s.start, List.forall_mem_singleton.mpr (hword s.stop)⟩
  · cases o.location with
    | none => exact fun _ hm => nomatch hm
    | some l =>
        exact List.forall_mem_cons.mpr
          ⟨hword l.line, List.forall_mem_singleton.mpr (hword l.column)⟩

theorem membersFit_of_isPlain {members : List (String × Json)}
    (h : ∀ m ∈ members, IsPlain m.2) (n : Nat) : membersFit n members = true := by
  induction members with
  | nil => rfl
  | cons m ms ih =>
      obtain ⟨hm, hms⟩ := List.forall_mem_cons.mp h
      obtain ⟨name, v⟩ := m
      rw [membersFit_cons, hm.fits, ih hms]
      rfl

theorem rereadMembers_of_isPlain {members : List (String × Json)}
    (h : ∀ m ∈ members, IsPlain m.2) : rereadMembers members = members := by
  induction members with
  | nil => rfl
  | cons m ms ih =>
      obtain ⟨hm, hms⟩ := List.forall_mem_cons.mp h
      obtain ⟨name, v⟩ := m
      rw [rereadMembers, ih hms, hm.reread_eq]

/-- An array of such objects is read back from its text. -/
theorem ofText_pretty_objects {objects : List (List (String × Json))}
    (h : ∀ members ∈ objects, ∀ m ∈ members, IsPlain m.2) :
    Json.ofText (Json.array (objects.map .object)).pretty = .ok (.array (objects.map .object)) := by
  have hfits : (Json.array (objects.map .object)).fits maxDepth = true := by
    rw [maxDepth, fits_array_succ]
    refine itemsFit_of_forall fun v hv => ?_
    obtain ⟨members, hmembers, rfl⟩ := List.mem_map.mp hv
    rw [fits_object_succ]
    exact membersFit_of_isPlain (h members hmembers) 125
  have hreread : rereadItems (objects.map .object) = objects.map .object := by
    rw [rereadItems_eq_map, List.map_map]
    refine List.map_congr_left fun members hmembers => ?_
    show (Json.object members).reread = _
    rw [reread, rereadMembers_of_isPlain (h members hmembers)]
  rw [ofText_pretty, hfits, reread, hreread]
  rfl

/-- **There is a report** when every file has a name. Its objects tell the offenses. -/
theorem render_json {offenses : List Offense} (h : ∀ o ∈ offenses, o.file.isText = true) :
    ReportFormat.json.render offenses =
      .ok (Json.array (offenses.map fun o => .object (o.members o.file.display))).pretty := by
  have hobjects : offenses.mapM toJson =
      .ok (offenses.map fun o => .object (o.members o.file.display)) := by
    refine mapM_eq_ok_map fun o ho => ?_
    obtain ⟨name, hname⟩ := SystemString.isText_iff.mp (h o ho)
    rw [toJson, hname]
    rfl
  rw [ReportFormat.render, hobjects]
  rfl

/-- There is no report when one of the files has no name. -/
theorem render_json_of_mem {offenses : List Offense} {o : Offense} (ho : o ∈ offenses)
    (h : o.file.isText = false) : ReportFormat.json.render offenses = .error .pathNotText := by
  have hfault : toJson o = .error .pathNotText := by
    rw [toJson]
    cases hfile : o.file with
    | text name =>
        rw [hfile] at h
        exact nomatch h
    | bytes content invalid => rfl
  obtain ⟨-, -, fault, -, hall⟩ := mapM_eq_error_of_mem ho hfault
  rw [ReportFormat.render, hall]
  -- there is one fault only
  cases fault
  rfl

end Offense

/-! ## Where the places come from -/

namespace Offense

theorem isSome_span_ofFinding (file : SystemString) (index : Option LineIndex) (f : Finding) :
    (ofFinding file index f).span.isSome = true ↔ f.span ≠ Span.dummy := by
  have hdummy : f.span.isDummy = true ↔ f.span = Span.dummy := beq_iff_eq
  show (if f.span.isDummy then none else some f.span).isSome = true ↔ _
  rw [Ne, ← hdummy]
  cases f.span.isDummy <;> simp

/-- The location of an offense is known when its span is and the document carries its source. -/
theorem location_ofFinding (file : SystemString) (source : Option String) (f : Finding) :
    (ofFinding file (source.map .ofSource) f).location =
      if f.span.isDummy then none
      else source.map fun source => (LineIndex.ofSource source).location f.span.start := by
  show (source.map LineIndex.ofSource).bind (·.spanStart? f.span) = _
  cases source with
  | none => exact (ite_self none).symm
  | some source => rfl

theorem isSome_location_ofFinding (file : SystemString) (source : Option String) (f : Finding) :
    (ofFinding file (source.map .ofSource) f).location.isSome = true ↔
      f.span ≠ Span.dummy ∧ source.isSome = true := by
  have hdummy : f.span.isDummy = true ↔ f.span = Span.dummy := beq_iff_eq
  rw [location_ofFinding, Ne, ← hdummy]
  cases f.span.isDummy <;> simp

/-- The members for the bytes of a finding are there unless its span is the dummy one, and those
    for its line and column if the source is there besides. -/
structure PlacesTold (f : Finding) (source : Option String) (members : List (String × Json)) :
    Prop where
  start : "start" ∈ members.map Prod.fst ↔ f.span ≠ Span.dummy
  stop : "end" ∈ members.map Prod.fst ↔ f.span ≠ Span.dummy
  line : "line" ∈ members.map Prod.fst ↔ f.span ≠ Span.dummy ∧ source.isSome = true
  column : "column" ∈ members.map Prod.fst ↔ f.span ≠ Span.dummy ∧ source.isSome = true

/-- The members for a place are among the names when the place is known. -/
theorem mem_memberNames : ∀ span location : Bool,
    ("start" ∈ memberNames span location ↔ span = true) ∧
    ("end" ∈ memberNames span location ↔ span = true) ∧
    ("line" ∈ memberNames span location ↔ location = true) ∧
    ("column" ∈ memberNames span location ↔ location = true) := by decide

theorem placesTold_ofFinding {file : SystemString} {source : Option String} {f : Finding}
    {name : String} {members : List (String × Json)}
    (h : (ofFinding file (source.map .ofSource) f).Told name members) :
    PlacesTold f source members := by
  have hspan := isSome_span_ofFinding file (source.map .ofSource) f
  have hlocation := isSome_location_ofFinding file source f
  obtain ⟨hstart, hstop, hline, hcolumn⟩ := mem_memberNames
    (ofFinding file (source.map .ofSource) f).span.isSome
    (ofFinding file (source.map .ofSource) f).location.isSome
  rw [← h.names] at hstart hstop hline hcolumn
  exact ⟨hstart.trans hspan, hstop.trans hspan, hline.trans hlocation, hcolumn.trans hlocation⟩

/-! ## The report as a whole -/

/-- Each object of the array that is read tells its offense. -/
theorem exists_objects {offenses : List Offense} (h : ∀ o ∈ offenses, o.file.isText = true) :
    ∃ text objects, ReportFormat.json.render offenses = .ok text ∧
      Json.ofText text = .ok (.array (objects.map .object)) ∧
      List.Forall₂ (fun o members => ∃ name, o.file = .text name ∧ o.Told name members)
        offenses objects := by
  refine ⟨_, offenses.map fun o => o.members o.file.display, render_json h, ?_, ?_⟩
  · have hplain : ∀ members ∈ offenses.map (fun o => o.members o.file.display),
        ∀ m ∈ members, IsPlain m.2 := by
      intro members hmembers
      obtain ⟨o, -, rfl⟩ := List.mem_map.mp hmembers
      exact o.isPlain_of_mem _
    have hread := ofText_pretty_objects hplain
    rw [List.map_map] at hread ⊢
    exact hread
  · refine List.forall₂_map_right_iff.mpr (List.forall₂_same.mpr fun o ho => ?_)
    obtain ⟨name, hname⟩ := SystemString.isText_iff.mp (h o ho)
    refine ⟨name, hname, ?_⟩
    rw [hname]
    exact o.told_members name

/-- Different lists of offenses have different texts. -/
theorem eq_of_render_eq {a b : List Offense} {text : String}
    (ha : ReportFormat.json.render a = .ok text) (hb : ReportFormat.json.render b = .ok text) :
    a = b := by
  have hnamed : ∀ {offenses}, ReportFormat.json.render offenses = .ok text →
      ∀ o ∈ offenses, o.file.isText = true := by
    intro offenses hrender o ho
    by_contra hname
    rw [render_json_of_mem ho (Bool.eq_false_iff.mpr hname)] at hrender
    exact nomatch hrender
  obtain ⟨textA, objects, hrenderA, hreadA, htoldA⟩ := exists_objects (hnamed ha)
  obtain ⟨textB, objects', hrenderB, hreadB, htoldB⟩ := exists_objects (hnamed hb)
  obtain rfl := Except.ok.inj (ha.symm.trans hrenderA)
  obtain rfl := Except.ok.inj (hb.symm.trans hrenderB)
  have harray := Json.array.inj (Except.ok.inj (hreadA.symm.trans hreadB))
  obtain rfl := List.map_injective_iff.mpr (fun _ _ => Json.object.inj) harray
  -- the objects are the same, and each of them tells one offense
  refine List.left_unique_forall₂' ?_ htoldA htoldB
  rintro o o' members ⟨name, hname, htold⟩ ⟨name', hname', htold'⟩
  exact htold.unique hname hname' htold'

end Offense

/-- **The JSON report loses nothing.** As long as the names of the files are texts there is a
    report. It is read back as an array with one object for each offense, in order, that has just
    the members which tell the offense. So different lists of offenses never have the same text.
    For what is found in a document, the members for its bytes are there unless its span is
    the dummy one, and those for its line and column if the document carries its source
    besides. -/
theorem ReportFormat.render_json_exact :
    (∀ offenses : List Offense, (∀ o ∈ offenses, o.file.isText = true) →
      ∃ text objects, ReportFormat.json.render offenses = .ok text ∧
        Json.ofText text = .ok (.array (objects.map .object)) ∧
        List.Forall₂ (fun o members => ∃ name, o.file = .text name ∧ o.Told name members)
          offenses objects) ∧
    (∀ (a b : List Offense) (text : String), ReportFormat.json.render a = .ok text →
      ReportFormat.json.render b = .ok text → a = b) ∧
    ∀ (files : Files) (detector : Detector) (path : SystemString) (d : Document),
      Document.load files path = .ok d →
        ∃ offenses, Check.file files detector path = .ok offenses ∧
          List.Forall₂ (fun f o => o.file = path ∧
              ∀ name members, o.Told name members → Offense.PlacesTold f d.source members)
            (detector.findings d.manifest) offenses := by
  refine ⟨?_, ?_, ?_⟩
  · intro offenses h
    exact Offense.exists_objects h
  · intro a b text ha hb
    exact Offense.eq_of_render_eq ha hb
  · intro files detector path d hload
    refine ⟨_, Check.file_of_ok hload, ?_⟩
    rw [Check.offensesIn_of_ok hload]
    refine List.forall₂_map_right_iff.mpr (List.forall₂_same.mpr ?_)
    intro f _
    refine ⟨rfl, ?_⟩
    intro name members h
    exact Offense.placesTold_ofFinding h

/-- A cask that carries its source; the second line of that is a stanza which a conditional block
    declares too. -/
def placedDocument : Document where
  token := "foo"
  source := some "\"\nversion"
  body := [(Node.send "version" []).placedAt ⟨2, 9⟩,
    .block "on_arm" [] [] [.send "version" []]]

theorem Document.load_placedDocument (path : SystemString) :
    Document.load (fun _ => .file placedDocument.toText.toUTF8) path = .ok placedDocument :=
  Document.load_of_file rfl (Document.ofText_toText_eq_ok.mpr
    ⟨⟨⟨by decide, fun x hx => nomatch hx⟩, fun x hx => nomatch hx⟩, rfl⟩)

/-- A report with quotes, newlines and a control character, and a document with one finding that
    has a place. -/
theorem ReportFormat.render_json_exact_placedDocument :
    let o : Offense := ⟨.text "\"a\".json", "on_\n", some ⟨2, 9⟩, some ⟨2, 1⟩, "\x01\\"⟩
    let files : Files := fun _ => .file placedDocument.toText.toUTF8
    (∀ o' ∈ [o], o'.file.isText = true) ∧
    (∃ text objects, ReportFormat.json.render [o] = .ok text ∧
      Json.ofText text = .ok (.array (objects.map .object)) ∧
      List.Forall₂ (fun o members => ∃ name, o.file = .text name ∧ o.Told name members)
        [o] objects ∧
      [o] = [] ++ [o]) ∧
    Document.load files "a.json" = .ok placedDocument ∧
    ∃ offenses, Check.file files .standard "a.json" = .ok offenses ∧
      offenses.length = 1 := by
  intro o files
  have hnamed : ∀ o' ∈ [o], o'.file.isText = true := by
    intro o' ho'
    rw [List.mem_singleton.mp ho']
    rfl
  obtain ⟨hread, hunique, hfile⟩ := ReportFormat.render_json_exact
  obtain ⟨text, objects, hrender, htext, htold⟩ := hread [o] hnamed
  refine ⟨hnamed, ⟨text, objects, hrender, htext, htold, hunique [o] _ text hrender hrender⟩,
    Document.load_placedDocument _, ?_⟩
  obtain ⟨offenses, hoffenses, htold⟩ :=
    hfile files .standard "a.json" placedDocument (Document.load_placedDocument _)
  have hone : (Detector.standard.findings placedDocument.manifest).length = 1 := by
    decide
  exact ⟨offenses, hoffenses, htold.length_eq ▸ hone⟩

end CaskLint
