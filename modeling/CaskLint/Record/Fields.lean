import CaskLint.Record.Mismatch

/-!
# Records and their members

  A record is read member by member, in whatever order the members come. What its members are
  is a list of **`Field`**s: a name, the shape of the value, and the value that stands in when
  the member is left out, if it may be. Shapes are codes of an index type `σ`; `V` says which
  type of values a code stands for, so that a read record is typed (`Values`).

* **`Slots`** — the members read so far.
* **`Slots.assign?`** — one more member. A name that is taken already is an error; a name
  that no field has is left to the caller.
* **`Slots.complete`** — the record when no more members come. Of the members that are
  missing and have no stand-in, the first in the order of the fields is the error.
* **`Values.standIns`** — what a record gets for fields that a list of values does not reach.
-/

namespace CaskLint.Record

variable {σ : Type} {ε : Type}

/-- A member that a record knows. -/
structure Field (V : σ → Type) where
  name : String
  shape : σ
  /-- The value when the member is left out; none if it must be given. -/
  standIn : Option (V shape)

/-- The values of a record, one for each field. -/
def Values (V : σ → Type) : List (Field V) → Type
  | [] => Unit
  | f :: fs => V f.shape × Values V fs

/-- The values of a record that have been read so far. -/
def Slots (V : σ → Type) : List (Field V) → Type
  | [] => Unit
  | f :: fs => Option (V f.shape) × Slots V fs

variable {V : σ → Type}

/-- Nothing has been read. -/
def Slots.empty : (fs : List (Field V)) → Slots V fs
  | [] => ()
  | _ :: fs => (none, Slots.empty fs)

/-- Reads the member of this name; none if no field has the name. -/
def Slots.assign? (fail : Mismatch → ε) (name : String) (read : (s : σ) → Except ε (V s)) :
    (fs : List (Field V)) → Slots V fs → Option (Except ε (Slots V fs))
  | [], _ => none
  | f :: fs, (slot, slots) =>
    if f.name = name then
      some (match slot with
        | some _ => .error (fail (.duplicateMember name))
        | none => (read f.shape).map fun v => (some v, slots))
    else (Slots.assign? fail name read fs slots).map (Except.map fun slots => (slot, slots))

/-- The record when all its members have been read. -/
def Slots.complete : (fs : List (Field V)) → Slots V fs → Except Mismatch (Values V fs)
  | [], _ => .ok ()
  | f :: fs, (slot, slots) =>
    match slot.or f.standIn with
    | some v => (Slots.complete fs slots).map fun vs => (v, vs)
    | none => .error (.missingMember f.name)

/-- The stand-ins of all fields; `index` is the position of the first of them in its record. -/
def Values.standIns (label : String) (index : Nat) :
    (fs : List (Field V)) → Except Mismatch (Values V fs)
  | [] => .ok ()
  | f :: fs =>
    match f.standIn with
    | some v => (Values.standIns label (index + 1) fs).map fun vs => (v, vs)
    | none => .error (.wrongLength index label)

end CaskLint.Record
