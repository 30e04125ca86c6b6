/-!
# TOML tables

A document is a table that grows line by line. A table remembers how it came about, since that
decides what may still be added to it: a table under its own header is complete when the next header
comes, a table implied by the header of a part may still get a header, and a table made by dotted
keys may only be extended by dotted keys.
-/

namespace ServiceSchema.Toml

inductive Value where
  | string (s : String)
  | integer (i : Int)
  /-- A floating-point number as it is written. -/
  | float (spelling : List Char)
  | boolean (b : Bool)
  /-- A date, a time or both as they are written. -/
  | moment (spelling : List Char)
  | array (items : List Value)
  | table (entries : List (String × Value))

inductive Origin where
  | header
  | implied
  | dotted
deriving DecidableEq, Repr

/-- What stands under a key of a growing table. -/
inductive Node where
  | value (v : Value)
  | table (origin : Origin) (entries : List (String × Node))
  /-- The tables of an array of tables; only the last one, `current`, still grows. -/
  | tables (closed : List (List (String × Node))) (current : List (String × Node))

abbrev Entries := List (String × Node)

namespace Entries

def replace (key : String) (n : Node) (es : Entries) : Entries :=
  es.map fun e => if e.1 = key then (key, n) else e

def add (key : String) (n : Node) (es : Entries) : Entries :=
  es ++ [(key, n)]

/-- Changes the table at the end of a path of headers; missing tables are implied. -/
def atPath (change : Entries → Option Entries) : List String → Entries → Option Entries
  | [], es => change es
  | key :: path, es =>
    match es.lookup key with
    | none => do return es.add key (.table .implied (← atPath change path []))
    | some (.table o sub) => do return es.replace key (.table o (← atPath change path sub))
    | some (.tables closed current) => do
      return es.replace key (.tables closed (← atPath change path current))
    | some (.value _) => none

def openTable (key : String) (es : Entries) : Option Entries :=
  match es.lookup key with
  | none => some (es.add key (.table .header []))
  | some (.table .implied sub) => some (es.replace key (.table .header sub))
  | _ => none

def openNext (key : String) (es : Entries) : Option Entries :=
  match es.lookup key with
  | none => some (es.add key (.tables [] []))
  | some (.tables closed current) => some (es.replace key (.tables (closed ++ [current]) []))
  | _ => none

/-- Sets the value under a dotted key. The table that gets the value has to be the current one or
one that dotted keys have made. -/
def assign (v : Value) : List String → Entries → Option Entries
  | [], _ => none
  | [key], es => if (es.lookup key).isNone then some (es.add key (.value v)) else none
  | key :: next :: path, es =>
    match es.lookup key with
    | none => do return es.add key (.table .dotted (← assign v (next :: path) []))
    | some (.table .dotted sub) => do
      return es.replace key (.table .dotted (← assign v (next :: path) sub))
    | some (.table .implied sub) =>
      if path.isEmpty then none
      else do return es.replace key (.table .implied (← assign v (next :: path) sub))
    | some (.tables closed current) =>
      if path.isEmpty then none
      else do return es.replace key (.tables closed (← assign v (next :: path) current))
    | _ => none

end Entries

mutual

def Node.finish : Node → Value
  | .value v => v
  | .table _ entries => .table (finishEntries entries)
  | .tables closed current =>
    .array (finishTables closed ++ [.table (finishEntries current)])

def finishEntries : List (String × Node) → List (String × Value)
  | [] => []
  | (k, n) :: rest => (k, n.finish) :: finishEntries rest

def finishTables : List (List (String × Node)) → List Value
  | [] => []
  | es :: rest => .table (finishEntries es) :: finishTables rest

end

end ServiceSchema.Toml
