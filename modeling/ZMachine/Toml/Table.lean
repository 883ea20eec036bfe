/-!
# TOML tables

A document is a table of named values, which may be tables themselves. A table remembers how it came
about, because that decides whether more may be added to it: by a header, by being on the way to
something that has one, by a dotted key, or as a value between braces, which is complete.
-/

namespace ZMachine.Toml

inductive Role where
  | headed
  /-- It lies on the way to a table that has a header. -/
  | implied
  /-- It lies on the way to the last part of a dotted key. -/
  | dotted
  | inline
  deriving DecidableEq, Repr

inductive Node where
  | text (value : String)
  | integer (value : Int)
  | boolean (value : Bool)
  | float
  | date
  | array (items : List Node)
  | table (role : Role) (entries : List (String × Node))
  /-- The tables of a repeated header, the latest first. -/
  | tables (elements : List (List (String × Node)))

abbrev Table := List (String × Node)

namespace Table

def get? (table : Table) (key : String) : Option Node :=
  table.lookup key

/-- Puts something in the place of a key's value, or of its absence, if `change` allows it. -/
def alter (key : String) (change : Option Node → Option Node) : Table → Option Table
  | [] => (change none).map fun node => [(key, node)]
  | (k, node) :: rest =>
    if k = key then (change (some node)).map fun node => (k, node) :: rest
    else (alter key change rest).map fun rest => (k, node) :: rest

/-- Changes the table at the end of a path. Tables missing on the way are made, as `dotted` or
implied ones; a dotted path does not lead through a table with a header, and no path through a
complete value. `change` learns whether the table at the end is a dotted one. -/
def within (dotted : Bool) (change : Bool → Table → Option Table) :
    List String → Bool → Table → Option Table
  | [], last, table => change last table
  | key :: path, _, table =>
    alter key (fun
      | none =>
        (within dotted change path dotted []).map
          (Node.table (if dotted then .dotted else .implied))
      | some (.table role entries) =>
        if role = .inline ∨ (dotted = true ∧ role = .headed) then none
        else (within dotted change path (role = .dotted) entries).map (Node.table role)
      | some (.tables (latest :: before)) =>
        (within dotted change path false latest).map fun latest => .tables (latest :: before)
      | some _ => none) table

/-- Gives a value to a key that has none. -/
def insertNew (key : String) (node : Node) (table : Table) : Option Table :=
  alter key (fun
    | none => some node
    | some _ => none) table

/-- Gives a value to a dotted key: the path and the last part. A dotted key adds only to tables that
dotted keys have made. -/
def assign (path : List String) (key : String) (node : Node) (table : Table) : Option Table :=
  within true (fun last entries =>
    if last = path.isEmpty then none else insertNew key node entries) path false table

/-- Gives values to dotted keys, one after the other. -/
def assignAll (table : Table) : List (List String × String × Node) → Option Table
  | [] => some table
  | (path, key, node) :: rest =>
    match table.assign path key node with
    | some table => assignAll table rest
    | none => none

/-- Opens the table of a header. -/
def openTable (path : List String) (key : String) (table : Table) : Option Table :=
  within false (fun _ entries =>
    alter key (fun
      | none => some (.table .headed [])
      | some (.table .implied entries) => some (.table .headed entries)
      | some _ => none) entries) path false table

/-- Opens one more table of a repeated header. -/
def openNext (path : List String) (key : String) (table : Table) : Option Table :=
  within false (fun _ entries =>
    alter key (fun
      | none => some (.tables [[]])
      | some (.tables elements) => some (.tables ([] :: elements))
      | some _ => none) entries) path false table

end Table

end ZMachine.Toml
