/-!
# TOML documents

The values that a TOML document holds, and the rules by which keys and headers build its tables up:
no key is set twice, a table with a header of its own is opened once, and a table written between
braces is complete as it stands.
-/

namespace ConstraintStreams

/-- How a table came to be. -/
inductive Toml.Origin
  /-- It is on the way to a table that has a header. -/
  | implied
  /-- It is on the way to a value that has a dotted key. -/
  | dotted
  /-- It has a header, or it is the document. -/
  | header
  /-- It is written between braces. -/
  | inline
  deriving DecidableEq

/-- A value of a document. Floats and dates are kept as written. -/
inductive Toml
  | string (s : String)
  | integer (n : Int64)
  | float (written : String)
  | boolean (b : Bool)
  | date (written : String)
  | array (items : List Toml)
  | table (origin : Toml.Origin) (entries : List (String × Toml))
  /-- Tables with the same double-bracketed header. -/
  | tables (elements : List (List (String × Toml)))

namespace Toml

/-- The entries of a table, in the order in which they were written. -/
abbrev Entries := List (String × Toml)

/-- Entries with the value of a key replaced. -/
def replace (key : String) (v : Toml) (entries : Entries) : Entries :=
  entries.map fun e => if e.1 = key then (key, v) else e

/-- Changes the table at the end of a path of keys. Tables that are missing on the way are made, and
of the tables with one double-bracketed header the last is meant. No path passes through a table
between braces, and no dotted key through a table that has a header. -/
def changeAt (dotted : Bool) (f : Origin → Entries → Option (Origin × Entries)) :
    List String → Origin → Entries → Option (Origin × Entries)
  | [], origin, entries => f origin entries
  | key :: path, origin, entries =>
    match entries.lookup key with
    | none => do
      let (o, es) ← changeAt dotted f path (if dotted then .dotted else .implied) []
      pure (origin, entries ++ [(key, table o es)])
    | some (table o es) =>
      if o = .inline ∨ (dotted ∧ o = .header) then none
      else do
        let (o, es) ← changeAt dotted f path o es
        pure (origin, replace key (table o es) entries)
    | some (tables elements) => do
      let es ← elements.getLast?
      let (_, es) ← changeAt dotted f path .header es
      pure (origin, replace key (tables (elements.dropLast ++ [es])) entries)
    | some _ => none

/-- Sets a key of a table that has no such key. -/
def setKey (key : String) (v : Toml) (origin : Origin) (entries : Entries) :
    Option (Origin × Entries) :=
  if (entries.lookup key).isSome then none else some (origin, entries ++ [(key, v)])

/-- Sets a dotted key of a table. Only tables that dotted keys have made take dotted keys, and only
the others take plain ones. -/
def setPath (path : List String) (key : String) (v : Toml) (origin : Origin) (entries : Entries) :
    Option (Origin × Entries) :=
  changeAt true
    (fun o es => if (o = .dotted) = path.isEmpty then none else setKey key v o es)
    path origin entries

/-- Opens the table of a header. -/
def openTable (key : String) (origin : Origin) (entries : Entries) : Option (Origin × Entries) :=
  match entries.lookup key with
  | none => some (origin, entries ++ [(key, table .header [])])
  | some (table .implied es) => some (origin, replace key (table .header es) entries)
  | some _ => none

/-- Opens the next table of a double-bracketed header. -/
def openElement (key : String) (origin : Origin) (entries : Entries) : Option (Origin × Entries) :=
  match entries.lookup key with
  | none => some (origin, entries ++ [(key, tables [[]])])
  | some (tables elements) => some (origin, replace key (tables (elements ++ [[]])) entries)
  | some _ => none

end Toml

end ConstraintStreams
