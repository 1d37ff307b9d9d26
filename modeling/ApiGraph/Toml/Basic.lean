/-!
# ApiGraph.Toml.Basic

The tables of a TOML document, and the rules by which its statements fill them. Every key is given
a value once. A table may be defined by one header only; the tables above it come into being on the
way, and may get a header of their own later. The tables on the way of a dotted key belong to it:
only dotted keys extend them.

* `Toml` — values, and tables with how they came to be.
* `Statement`, `Toml.document?` — from statements to the top-level table.
-/

namespace ApiGraph

/-- How a table came to be. -/
inductive TableOrigin
  /-- By a header. -/
  | header
  /-- On the way to the table of a header. -/
  | implied
  /-- On the way of a dotted key. -/
  | dotted
deriving DecidableEq, Inhabited, Repr

/-- A value of a TOML document. Numbers and times keep their text. -/
inductive Toml
  | string (value : String)
  | integer (value : Int)
  | float (text : String)
  | boolean (value : Bool)
  | time (text : String)
  | array (items : List Toml)
  /-- A table between braces, which nothing extends. -/
  | inline (entries : List (String × Toml))
  | table (origin : TableOrigin) (entries : List (String × Toml))
  /-- An array of tables, each defined by a header of its own. -/
  | tables (elements : List (List (String × Toml)))
deriving Inhabited

namespace Toml

/-- The entries of a table. -/
abbrev Entries := List (String × Toml)

/-- The entries with `key` set to `value`, in its place or at the end. -/
def put (key : String) (value : Toml) : Entries → Entries
  | [] => [(key, value)]
  | (k, v) :: rest => if k = key then (k, value) :: rest else (k, v) :: put key value rest

/-- Changes the table below `entries` that `path` leads to. Tables on the way that are missing come
into being with the given origin. A dotted key passes through no table that a header defined. An
array of tables stands for its last one. -/
def at? (origin : TableOrigin) (change : TableOrigin → Entries → Option Entries) :
    (path : List String) → (here : TableOrigin) → Entries → Option Entries
  | [], here, entries => change here entries
  | key :: path, _, entries =>
    match entries.lookup key with
    | none => do
      let inner ← at? origin change path origin []
      return put key (.table origin inner) entries
    | some (.table found inner) =>
      if origin = .dotted ∧ found = .header then none
      else do
        let inner ← at? origin change path found inner
        return put key (.table found inner) entries
    | some (.tables elements) =>
      match elements.getLast? with
      | none => none
      | some last => do
        let last ← at? origin change path .header last
        return put key (.tables (elements.dropLast ++ [last])) entries
    | some _ => none

/-- Gives a key a value, below the tables of a dotted key. -/
def assign? (path : List String) (key : String) (value : Toml) (entries : Entries) :
    Option Entries :=
  at? .dotted
    (fun here entries =>
      -- A dotted key ends in a table of dotted keys.
      if !path.isEmpty && here != .dotted then none
      else if (entries.lookup key).isSome then none
      else some (entries ++ [(key, value)]))
    path .header entries

/-- Defines the table that a header names. -/
def define? (path : List String) (key : String) (entries : Entries) : Option Entries :=
  at? .implied
    (fun _ entries =>
      match entries.lookup key with
      | none => some (entries ++ [(key, .table .header [])])
      | some (.table .implied inner) => some (put key (.table .header inner) entries)
      | some _ => none)
    path .header entries

/-- Adds a table to the array of tables that a header names. -/
def extend? (path : List String) (key : String) (entries : Entries) : Option Entries :=
  at? .implied
    (fun _ entries =>
      match entries.lookup key with
      | none => some (entries ++ [(key, .tables [[]])])
      | some (.tables elements) => some (put key (.tables (elements ++ [[]])) entries)
      | some _ => none)
    path .header entries

/-- The table between braces that holds the given pairs. -/
def inline? (pairs : List (List String × String × Toml)) : Option Toml :=
  (pairs.foldlM (fun entries (path, key, value) => assign? path key value entries) []).map .inline

end Toml

/-- A statement of a TOML document. A path and a key name a place. -/
inductive TomlStatement
  /-- A key with its value. -/
  | pair (path : List String) (key : String) (value : Toml)
  /-- A header in single brackets. -/
  | header (path : List String) (key : String)
  /-- A header in double brackets. -/
  | element (path : List String) (key : String)

/-- Where the pairs of a document go: the path of the last header, and the top-level table. -/
structure TomlState where
  current : List String := []
  entries : Toml.Entries := []

/-- Carries out one statement. -/
def TomlStatement.run? (state : TomlState) : TomlStatement → Option TomlState
  | .pair path key value => do
    let entries ← Toml.at? .implied (fun _ => Toml.assign? path key value) state.current .header
      state.entries
    return { state with entries }
  | .header path key => do
    return { current := path ++ [key], entries := ← Toml.define? path key state.entries }
  | .element path key => do
    return { current := path ++ [key], entries := ← Toml.extend? path key state.entries }

/-- The top-level table of a document, unless a statement breaks a rule. -/
def Toml.document? (statements : List TomlStatement) : Option Toml.Entries :=
  (statements.foldlM TomlStatement.run? {}).map (·.entries)

end ApiGraph
