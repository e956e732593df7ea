import CaskLint.Stanza.Manifest
import CaskLint.Tree.Fold

/-!
# Top-level stanzas that double as defaults

  A stanza at the top level of a cask must not serve as the default for a stanza of the same
  name that is declared inside a conditional block. A **`Detector`** knows which blocks
  are conditional and the name of the livecheck block.

* **`Detector.declared`** — the names that a tree declares. A livecheck invocation hides
  everything below it. Conditional blocks declare what is in them and not themselves. Code
  that is put straight into an interpolated string (`Context.embedded`) declares nothing,
  but what lies further below does.
* **`Detector.declaredInBlocks`** — the names declared in the conditional blocks of a
  manifest.
* **`Detector.findings`** — the stanzas that are no conditional blocks and whose name is
  declared in one, in the order of the manifest.
-/

namespace CaskLint

/-! ## Findings -/

/-- A stanza of a manifest, by its position, whose name a conditional block declares too. -/
structure Finding where
  position : Nat
  stanza : Stanza

namespace Finding

/-- The name that the stanza shares with a declaration in a conditional block. -/
def name (f : Finding) : String := f.stanza.name

/-- Where the stanza stood in the source. -/
def span (f : Finding) : Span := f.stanza.span

/-- The explanation of the finding, in two lines. -/
def message (f : Finding) : String :=
  "Do not use a top-level `" ++ f.name ++ "` stanza as the default. " ++
  "Add it to an `on_\x7bsystem\x7d` block instead.\n" ++
  "Use `:or_older` or `:or_newer` to specify a range of macOS versions."

end Finding

/-! ## The detector -/

/-- The name under which findings are reported. -/
def checkName : String := "Cask/NoOverrides"

/-- The names of the conditional blocks and of the livecheck block. -/
structure Detector where
  conditional : List String
  livecheck : String

/-- What stands right above a node. -/
inductive Context where
  /-- An interpolated string. -/
  | interpolation
  /-- The wrapper around code inside an interpolated string. -/
  | embedded
  | ordinary
deriving DecidableEq, Repr

/-- The context of the children of a node that itself stands in the given context. -/
def Kind.contextBelow : Kind → Context → Context
  | .interpolation _, _ => .interpolation
  | .begin _, .interpolation => .embedded
  | _, _ => .ordinary

namespace Detector

/-- The detector for the vocabulary's own names. -/
def standard : Detector := ⟨Vocabulary.conditionalBlocks, Vocabulary.livecheck⟩

/-- Whether a name is that of a conditional block. -/
def isConditional (d : Detector) (name : String) : Bool := d.conditional.contains name

/-- Whether a node is a livecheck invocation. -/
def isLivecheck (d : Detector) (n : Node) : Bool := n.method? == some d.livecheck

/-- The name that a node itself declares in a context, if any. -/
def declaredHere (d : Detector) (n : Node) (context : Context) : List String :=
  match n.method? with
  | none => []
  | some name => if context = .embedded || d.isConditional name then [] else [name]

/-- The names that a tree declares when it stands in the given context. -/
def declared (d : Detector) (n : Node) : Context → List String :=
  n.fold fun n below context =>
    if d.isLivecheck n then []
    else d.declaredHere n context ++ below.flatMap (· (n.kind.contextBelow context))

theorem declared_eq (d : Detector) (n : Node) (context : Context) :
    d.declared n context =
      if d.isLivecheck n then []
      else d.declaredHere n context ++
        n.children.flatMap (d.declared · (n.kind.contextBelow context)) := by
  rw [declared, Node.fold_eq]
  simp only [List.flatMap_map]
  rfl

/-- The names declared in a stanza, which counts only if it is a conditional block. -/
def declaredByStanza (d : Detector) (s : Stanza) : List String :=
  if d.isConditional s.name && s.block?.isSome then d.declared s.node .ordinary else []

/-- The names declared in the conditional blocks of a manifest. -/
def declaredInBlocks (d : Detector) (m : Manifest) : List String :=
  m.stanzas.flatMap d.declaredByStanza

/-- Whether a stanza outside the conditional blocks has one of the declared names. -/
def conflicts (d : Detector) (names : List String) (s : Stanza) : Bool :=
  !d.isConditional s.name && names.contains s.name

/-- The stanzas of a manifest that conflict with a conditional block, in order. -/
def findings (d : Detector) (m : Manifest) : List Finding :=
  let names := d.declaredInBlocks m
  (m.stanzas.zipIdx.filter fun (s, _) => d.conflicts names s).map fun (s, i) => ⟨i, s⟩

end Detector

end CaskLint
