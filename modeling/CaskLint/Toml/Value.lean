import CaskLint.Number.Binary64

/-!
# TOML values and tables

  A **`Value`** is what a finished TOML document holds. Tables keep their keys in the order
  in which they were defined.

  While a document is read its tables are **`Entries`**, which remember how each table came
  into being (**`Origin`**), because that decides what may still be added to it. A table is
  defined by its own header, implied by a longer header, or made by dotted keys.

* **`update`** — changes the table at the end of a path and makes the tables on the way.
  Dotted keys may only pass through tables that have no header of their own.
* **`define`** — gives a key its value, once.
* **`openTable`**, **`openElement`** — what the two kinds of header do.
-/

namespace CaskLint.Toml

/-! ## Values -/

/-- A TOML value. -/
inductive Value where
  | text (value : String)
  | integer (value : Int)
  | float (value : Binary64)
  | flag (value : Bool)
  /-- A date, a time or both, as it is written. -/
  | moment (written : String)
  | array (items : List Value)
  | table (entries : List (String × Value))

/-! ## Tables under construction -/

/-- How a table came into being. -/
inductive Origin where
  /-- Its own header; the root and inline tables count as such. -/
  | header
  /-- The header of a table below it. -/
  | implied
  /-- Dotted keys. -/
  | dotted
deriving DecidableEq, Repr

/-- What a key stands for while its document is read. -/
inductive Entry where
  | value (v : Value)
  | table (origin : Origin) (entries : List (String × Entry))
  /-- The tables of an array that headers in double brackets build. -/
  | tables (elements : List (List (String × Entry)))

/-- The keys of a table, in the order in which they were defined. -/
abbrev Entries := List (String × Entry)

mutual

/-- What the entry holds once the document is complete. -/
def Entry.finish : Entry → Value
  | .value v => v
  | .table _ entries => .table (finishEntries entries)
  | .tables elements => .array (finishElements elements)

/-- The keys and values of a table. -/
def finishEntries : List (String × Entry) → List (String × Value)
  | [] => []
  | (key, entry) :: rest => (key, entry.finish) :: finishEntries rest

/-- The tables of an array. -/
def finishElements : List (List (String × Entry)) → List Value
  | [] => []
  | entries :: rest => .table (finishEntries entries) :: finishElements rest

end

/-- The entries with another entry for a key that they have. -/
def replace (key : String) (entry : Entry) (entries : Entries) : Entries :=
  entries.map fun (k, old) => if k = key then (k, entry) else (k, old)

/-- Changes the table at the end of a path, given with its origin. -/
def update (origin : Origin) (change : Origin → Entries → Option Entries) :
    List String → Origin → Entries → Option Entries
  | [], here, entries => change here entries
  | key :: path, _, entries =>
    match entries.lookup key with
    | none => do
      let inner ← update origin change path origin []
      return entries ++ [(key, .table origin inner)]
    | some (.value _) => none
    | some (.table there inner) =>
      if origin = .dotted ∧ there = .header then none
      else do
        let inner ← update origin change path there inner
        return replace key (.table there inner) entries
    | some (.tables elements) => do
      let last ← elements.getLast?
      let last ← update origin change path .header last
      return replace key (.tables (elements.dropLast ++ [last])) entries

/-- Defines a key in the table that `path` leads to. -/
def define (path : List String) (key : String) (v : Value) : Origin → Entries → Option Entries :=
  update .dotted (fun here entries =>
    if (here == .dotted) == path.isEmpty || (entries.lookup key).isSome then none
    else some (entries ++ [(key, .value v)])) path

/-- Opens the table with this key, which has no header yet. -/
def openTable (key : String) (entries : Entries) : Option Entries :=
  match entries.lookup key with
  | none => some (entries ++ [(key, .table .header [])])
  | some (.table .implied inner) =>
    some (entries.filter (fun (k, _) => k ≠ key) ++ [(key, .table .header inner)])
  | some _ => none

/-- Opens one more table in the array with this key. -/
def openElement (key : String) (entries : Entries) : Option Entries :=
  match entries.lookup key with
  | none => some (entries ++ [(key, .tables [[]])])
  | some (.tables elements) => some (replace key (.tables (elements ++ [[]])) entries)
  | some _ => none

/-- The inline table of these keys and values. -/
def inlineTable (pairs : List (List String × String × Value)) : Option Value := do
  let entries ← pairs.foldlM (fun entries (path, key, v) => define path key v .header entries) []
  return .table (finishEntries entries)

/-! ## Documents under construction -/

/-- A line of a document that says something. -/
inductive Statement where
  /-- The header of a table. -/
  | table (path : List String) (key : String)
  /-- The header of one more table of an array. -/
  | element (path : List String) (key : String)
  /-- A key and its value. -/
  | define (path : List String) (key : String) (v : Value)

/-- A document as far as it is read, with the path of the table that keys go to. -/
structure Draft where
  root : Entries
  current : List String

namespace Draft

/-- Nothing is read yet. -/
def empty : Draft := ⟨[], []⟩

/-- One more statement. -/
def apply (d : Draft) : Statement → Option Draft
  | .table path key => do
    let root ← update .implied (fun _ entries => openTable key entries) path .header d.root
    return ⟨root, path ++ [key]⟩
  | .element path key => do
    let root ← update .implied (fun _ entries => openElement key entries) path .header d.root
    return ⟨root, path ++ [key]⟩
  | .define path key v => do
    let root ← update .implied (Toml.define path key v) d.current .header d.root
    return { d with root }

end Draft

/-- The keys and values of the document that the statements make, if they agree. -/
def document (statements : List Statement) : Option (List (String × Value)) := do
  let d ← statements.foldlM Draft.apply .empty
  return finishEntries d.root

end CaskLint.Toml
