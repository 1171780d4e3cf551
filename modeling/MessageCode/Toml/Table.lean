import MessageCode.Toml.Basic

/-!
How the statements of a TOML document make up its tables. A table is opened by one header only; the
tables on the way to it come into being unopened, and those on the way to a dotted key are marked
as such and take dotted keys only.
-/

namespace MessageCode.Toml

/-- How a table came into being. -/
inductive Origin where
  /-- It has a header of its own. -/
  | opened
  /-- It lies on the way to a header. -/
  | passed
  /-- It lies on the way to a dotted key. -/
  | dotted
  deriving DecidableEq

inductive Node where
  | value (v : Toml)
  | table (origin : Origin) (entries : List (String × Node))
  /-- An array of tables, the current one first. -/
  | tables (latest : List (String × Node)) (earlier : List (List (String × Node)))

abbrev Entries := List (String × Node)

structure Pair where
  path : List String
  key : String
  value : Toml

namespace Entries

def find (entries : Entries) (key : String) : Option Node :=
  (List.find? (fun entry => entry.1 == key) entries).map (·.2)

def put (entries : Entries) (key : String) (node : Node) : Entries :=
  if entries.any fun entry => entry.1 == key then
    entries.map fun entry => if entry.1 == key then (key, node) else entry
  else entries ++ [(key, node)]

/-- Adds a pair inside a table; `origin` tells how the table came into being. A key is added once,
and a dotted path ends in a table made by dotted keys. -/
def assign (dotted : Bool) (key : String) (value : Toml) :
    List String → Origin → Entries → Option Entries
  | [], origin, entries =>
      if dotted ∧ origin ≠ .dotted then none
      else
        match entries.find key with
        | none => some (entries.put key (.value value))
        | some _ => none
  | step :: path, _, entries =>
      match entries.find step with
      | none => do
          let inner ← assign dotted key value path .dotted []
          some (entries.put step (.table .dotted inner))
      | some (.value _) => none
      | some (.tables latest earlier) => do
          let inner ← assign dotted key value path .opened latest
          some (entries.put step (.tables inner earlier))
      | some (.table .opened _) => none
      | some (.table origin inner) => do
          let inner ← assign dotted key value path origin inner
          some (entries.put step (.table origin inner))

def assignPair (entries : Entries) (p : Pair) : Option Entries :=
  assign (!p.path.isEmpty) p.key p.value p.path .opened entries

def assignAll (entries : Entries) (pairs : List Pair) : Option Entries :=
  pairs.foldlM assignPair entries

/-- Changes the table that a header's path leads to; arrays of tables lead to their latest. -/
def within (change : Entries → Option Entries) : List String → Entries → Option Entries
  | [], entries => change entries
  | step :: path, entries =>
      match entries.find step with
      | none => do
          let inner ← within change path []
          some (entries.put step (.table .passed inner))
      | some (.value _) => none
      | some (.tables latest earlier) => do
          let inner ← within change path latest
          some (entries.put step (.tables inner earlier))
      | some (.table origin inner) => do
          let inner ← within change path inner
          some (entries.put step (.table origin inner))

def erase (entries : Entries) (key : String) : Entries := entries.filter fun entry => entry.1 != key

/-- Opens a table and gives it its pairs. A table that other headers have passed moves to the end
of its parent. -/
def openTable (key : String) (pairs : List Pair) (entries : Entries) : Option Entries :=
  match entries.find key with
  | none => do
      let inner ← assignAll [] pairs
      some (entries.put key (.table .opened inner))
  | some (.table .passed inner) => do
      let inner ← assignAll inner pairs
      some ((entries.erase key).put key (.table .opened inner))
  | some _ => none

/-- Adds a table to an array of tables and gives it its pairs. -/
def addTable (key : String) (pairs : List Pair) (entries : Entries) : Option Entries := do
  let inner ← assignAll [] pairs
  match entries.find key with
  | none => some (entries.put key (.tables inner []))
  | some (.tables latest earlier) => some (entries.put key (.tables inner (latest :: earlier)))
  | some _ => none

end Entries

mutual

def Node.finish : Node → Toml
  | .value v => v
  | .table _ entries => .table (Node.finishEntries entries)
  | .tables latest earlier =>
      .array (Node.finishTables earlier ++ [.table (Node.finishEntries latest)])

def Node.finishEntries : List (String × Node) → List (String × Toml)
  | [] => []
  | (key, node) :: rest => (key, node.finish) :: Node.finishEntries rest

def Node.finishTables : List (List (String × Node)) → List Toml
  | [] => []
  | entries :: rest => Node.finishTables rest ++ [.table (Node.finishEntries entries)]

end

def ofPairs? (pairs : List Pair) : Option Toml := do
  let entries ← Entries.assignAll [] pairs
  some (.table (Node.finishEntries entries))

inductive Header where
  | top
  | table (path : List String) (key : String)
  | tables (path : List String) (key : String)

structure Section where
  header : Header
  pairs : List Pair

def Section.apply (entries : Entries) (s : Section) : Option Entries :=
  match s.header with
  | .top => entries.assignAll s.pairs
  | .table path key => entries.within (Entries.openTable key s.pairs) path
  | .tables path key => entries.within (Entries.addTable key s.pairs) path

def ofSections? (sections : List Section) : Option (List (String × Toml)) := do
  let entries ← sections.foldlM Section.apply []
  some (Node.finishEntries entries)

end MessageCode.Toml
