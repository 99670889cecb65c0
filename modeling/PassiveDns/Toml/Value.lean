/-
  PassiveDns.Toml.Value

  TOML documents as data, and the rules by which keys and headers build them:
  no key is set twice, a table is opened by one header only, and dotted keys and
  inline tables are not reopened.
-/

namespace PassiveDns.Toml

/-- How a table came about. One that a longer header implies may still be opened
    by its own header. -/
inductive Origin where
  | header
  | implied
  | dotted
  | inline
deriving Repr, DecidableEq, Inhabited

/-- A value. Entries of a table keep the order in which they were added. -/
inductive Value where
  | text (s : String)
  | integer (n : Int)
  | boolean (b : Bool)
  | float (literal : String)
  | time (literal : String)
  | array (items : List Value)
  | table (origin : Origin) (entries : List (String × Value))
  | tables (elements : List (List (String × Value)))
deriving Repr, Inhabited

/-- The entries of a table. -/
abbrev Entries := List (String × Value)

namespace Entries

/-- The value of a key. -/
def get? (entries : Entries) (key : String) : Option Value :=
  (entries.find? fun entry => entry.1 = key).map Prod.snd

/-- Replaces the value of a key, or adds the key behind the others. -/
def set (entries : Entries) (key : String) (value : Value) : Entries :=
  if entries.any fun entry => entry.1 = key then
    entries.map fun entry => if entry.1 = key then (key, value) else entry
  else entries ++ [(key, value)]

/-- Removes a key. -/
def erase (entries : Entries) (key : String) : Entries :=
  entries.filter fun entry => entry.1 ≠ key

/-- Replaces the last element of a list. -/
def replaceLast {α : Type} (a : α) (items : List α) : List α :=
  items.dropLast ++ [a]

/-- Changes the table that a path leads to by `change`, which is told how that
    table came about. Tables that are missing on the way are made. Of several
    tables under one header the last one is entered. Dotted keys do not enter a
    table that has a header of its own. -/
def changeAt (dotted : Bool) (origin : Origin) (entries : Entries)
    (change : Origin → Entries → Option Entries) : List String → Option Entries
  | [] => change origin entries
  | key :: path =>
    match entries.get? key with
    | none => do
      let fresh : Origin := if dotted then .dotted else .implied
      let inner ← changeAt dotted fresh [] change path
      pure (entries.set key (.table fresh inner))
    | some (.table .inline _) => none
    | some (.table .header inner) =>
      if dotted then none
      else do
        let inner ← changeAt dotted .header inner change path
        pure (entries.set key (.table .header inner))
    | some (.table origin inner) => do
      let inner ← changeAt dotted origin inner change path
      pure (entries.set key (.table origin inner))
    | some (.tables elements) => do
      let last ← elements.getLast?
      let inner ← changeAt dotted .header last change path
      pure (entries.set key (.tables (replaceLast inner elements)))
    | some _ => none

/-- Adds a key that is not there yet. -/
def add (entries : Entries) (key : String) (value : Value) : Option Entries :=
  if (entries.get? key).isSome then none else some (entries ++ [(key, value)])

/-- Sets the key at the end of a dotted path. The table that holds it must have
    come about by dotted keys alone. -/
def setDotted (origin : Origin) (entries : Entries) (path : List String) (key : String)
    (value : Value) : Option Entries :=
  changeAt true origin entries
    (fun holder inner => if path ≠ [] ∧ holder ≠ .dotted then none else inner.add key value) path

/-- Opens a table by its header. -/
def openTable (entries : Entries) (path : List String) (key : String) : Option Entries :=
  changeAt false .header entries
    (fun _ inner =>
      match inner.get? key with
      | none => some (inner ++ [(key, .table .header [])])
      | some (.table .implied content) =>
        some (inner.erase key ++ [(key, .table .header content)])
      | some _ => none) path

/-- Adds a table to those under one header. -/
def openElement (entries : Entries) (path : List String) (key : String) : Option Entries :=
  changeAt false .header entries
    (fun _ inner =>
      match inner.get? key with
      | none => some (inner ++ [(key, .tables [[]])])
      | some (.tables elements) => some (inner.set key (.tables (elements ++ [[]])))
      | some _ => none) path

end Entries

end PassiveDns.Toml
