/-!
# TOML documents

The values of a TOML document, and how tables are built up from key-value lines and headers.
A table remembers how it came about, because that decides what may still be added to it.
-/

namespace ScriptMachine.Toml

/-- How a table came about. -/
inductive Origin where
  /-- By a header of its own; the document itself counts as one. -/
  | header
  /-- By being on the way to the table of a header. -/
  | implied
  /-- By a dotted key. -/
  | dotted
  /-- Written between braces. -/
  | inline
  deriving DecidableEq, Repr

/-- A value of a document. Of numbers with a fraction and of times only the type is kept. -/
inductive Value where
  | string (s : String)
  | integer (n : Int)
  | float
  | boolean (b : Bool)
  | time
  | array (items : List Value)
  /-- An array of tables made by headers in double brackets, last table first. -/
  | tables (items : List (List (String × Value)))
  | table (origin : Origin) (entries : List (String × Value))
  deriving Repr

/-- The entries of a table, in order of definition. -/
abbrev Entries := List (String × Value)

/-- Put a value in place of the one under a key. -/
def replaceEntry (key : String) (v : Value) (entries : Entries) : Entries :=
  entries.map fun e => if e.1 == key then (key, v) else e

/-- Add a value under a key that is still free. -/
def addEntry (key : String) (v : Value) (entries : Entries) : Option Entries :=
  if entries.any (·.1 == key) then none else some (entries ++ [(key, v)])

/-- Change the table at the end of a path of keys, making the missing tables on the way. Along
an array of tables the path goes through the last one. A dotted key cannot go through a table
that has a header or braces of its own. The change is told how the table came about. -/
def changeAt (made : Origin) (f : Origin → Entries → Option Entries) (origin : Origin) :
    List String → Entries → Option Entries
  | [], entries => f origin entries
  | key :: path, entries =>
    match entries.lookup key with
    | none => do
      let inner ← changeAt made f made path []
      return entries ++ [(key, .table made inner)]
    | some (.table origin inner) =>
      if made != .implied && (origin == .header || origin == .inline) then none
      else if origin == .inline then none
      else do
        let inner ← changeAt made f origin path inner
        return replaceEntry key (.table origin inner) entries
    | some (.tables (last :: others)) => do
      let last ← changeAt made f .header path last
      return replaceEntry key (.tables (last :: others)) entries
    | some _ => none

/-- Add a value under a dotted key. A table can be reached by dotted keys only if it was made by
one. -/
def addDotted (path : List String) (key : String) (v : Value) (entries : Entries) :
    Option Entries :=
  changeAt .dotted
    (fun origin entries =>
      if !path.isEmpty && origin != .dotted then none else addEntry key v entries)
    .header path entries

/-- Open a table by a header: a new one, or one that was only implied before. -/
def openTable (path : List String) (key : String) (root : Entries) : Option Entries :=
  changeAt .implied
    (fun _ entries =>
      match entries.lookup key with
      | none => some (entries ++ [(key, .table .header [])])
      | some (.table .implied inner) => some (replaceEntry key (.table .header inner) entries)
      | some _ => none)
    .header path root

/-- Open a new table at the end of an array of tables. -/
def openNext (path : List String) (key : String) (root : Entries) : Option Entries :=
  changeAt .implied
    (fun _ entries =>
      match entries.lookup key with
      | none => some (entries ++ [(key, .tables [[]])])
      | some (.tables items) => some (replaceEntry key (.tables ([] :: items)) entries)
      | some _ => none)
    .header path root

/-- Add a value under a dotted key in the table at the end of a path. -/
def addUnder (table : List String) (path : List String) (key : String) (v : Value)
    (root : Entries) : Option Entries :=
  changeAt .implied (fun _ entries => addDotted path key v entries) .header table root

end ScriptMachine.Toml
