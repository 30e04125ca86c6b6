import ServiceSchema.Json.Value
/-!
# Records and cases in JSON

A record format lists the fields of a record in order. A record is read from an object, whose fields
may come in any order and whose unknown fields are skipped, or from an array of its fields in the
order of the format.
-/

namespace ServiceSchema.Json

variable {σ α : Type}

structure Field (σ : Type) where
  name : String
  /-- An object without the field is refused. -/
  inObject : Bool
  /-- An array that ends before the field is refused. -/
  inArray : Bool
  /-- Reads the field into a record. -/
  read : Nat → σ → Reader σ

namespace Field

def required (name : String) (r : Nested α) (set : α → σ → σ) : Field σ :=
  ⟨name, true, true, fun d s => do return set (← r d) s⟩

/-- A field that keeps its value in the blank record when it is absent. -/
def optional (name : String) (r : Nested α) (set : α → σ → σ) : Field σ :=
  ⟨name, false, false, fun d s => do return set (← r d) s⟩

/-- A field that only an object may leave out. -/
def omittable (name : String) (r : Nested α) (set : α → σ → σ) : Field σ :=
  ⟨name, false, true, fun d s => do return set (← r d) s⟩

end Field

structure Format (σ : Type) where
  /-- The name of the record type in faults. -/
  title : String
  /-- The record before any field is read. -/
  blank : σ
  fields : List (Field σ)

namespace Format

def wanted (f : Format σ) : String :=
  "struct " ++ f.title

def elementCount (n : Nat) : String :=
  toString n ++ if n = 1 then " element" else " elements"

/-- Reads what follows a key. The names of the fields read so far go along with the record. -/
def entry (f : Format σ) (d : Nat) (key : String) (s : σ × List String) :
    Reader (σ × List String) := do
  match f.fields.find? (·.name == key) with
  | none =>
    Reader.colon
    skipValue
    pure s
  | some field =>
    if s.2.contains key then Reader.fail (.duplicateField key)
    else
      Reader.colon
      return (← field.read d s.1, key :: s.2)

def missing? (f : Format σ) (seen : List String) : Option (Field σ) :=
  f.fields.find? fun field => field.inObject && !seen.contains field.name

def fromObject (f : Format σ) : Nested σ := fun d => do
  let (s, seen) ← Reader.foldEntries (f.entry d) (f.blank, [])
  match f.missing? seen with
  | some field => Reader.fail (.missingField field.name)
  | none =>
    pass
    pure s

def listEnd : Reader Unit := do
  match ← peek with
  | none => Reader.fail .listEnds
  | some ']' => pass
  | some ',' =>
    pass
    match ← peek with
    | some ']' => Reader.fail .trailingComma
    | _ => Reader.fail .trailingCharacters
  | some _ => Reader.fail .trailingCharacters

def elements (f : Format σ) (d : Nat) : (index : Nat) → List (Field σ) → σ → Reader σ
  | _, [], s => pure s
  | index, field :: rest, s => do
    if ← Reader.anotherItem (index == 0) then
      elements f d (index + 1) rest (← field.read d s)
    else if field.inArray then
      Reader.fail (.wrongLength index (f.wanted ++ " with " ++ elementCount f.fields.length))
    else elements f d (index + 1) rest s

def fromArray (f : Format σ) : Nested σ := fun d => do
  let s ← f.elements d 0 f.fields f.blank
  listEnd
  pure s

def read (f : Format σ) : Nested σ := fun d => do
  match ← head with
  | .list => Reader.opened f.fromArray d
  | .object => Reader.opened f.fromObject d
  | h => Reader.wrongType h f.wanted

end Format

/-!
## Cases

A value of an enumeration is written as the name of its case, or as an object whose only key is the
name of the case and whose value is what the case holds.
-/

structure Case (α : Type) where
  name : String
  /-- Reads the rest of a case given by its name alone. -/
  alone : Reader α
  /-- Reads what the case holds. -/
  content : Nested α

namespace Case

def plain (name : String) (a : α) : Case α :=
  ⟨name, pure a, fun _ => do Reader.unit; return a⟩

def holding (name : String) (content : Nested α) : Case α :=
  ⟨name, Reader.fail (.wrongType .unitVariant "newtype variant"), content⟩

def find (cases : List (Case α)) (name : String) : Reader (Case α) :=
  match cases.find? (·.name == name) with
  | some c => pure c
  | none => Reader.fail (.unknownVariant name (cases.map (·.name)))

def entryEnd : Reader Unit := do
  match ← peek with
  | none => Reader.fail .objectEnds
  | some c => if c = '\x7d' then pass else Reader.fail .expectedValue

def fromEntry (cases : List (Case α)) : Nested α := fun d => do
  pass
  match ← Reader.anotherKey true with
  | none => Reader.fail .expectedValue
  | some name =>
    let c ← find cases name
    Reader.colon
    let a ← c.content d
    entryEnd
    return a

def read (cases : List (Case α)) : Nested α := fun d => do
  match ← peek with
  | none => Reader.fail .valueEnds
  | some '"' =>
    pass
    let c ← find cases (← stringRest)
    c.alone
  | some '\x7b' => Reader.opened (fromEntry cases) d
  | some _ => Reader.fail .expectedValue

end Case

end ServiceSchema.Json

/-!
## Records from buffered values

Some records are read in two steps: their fields are first kept as JSON values, and are looked at
once the text tells what they belong to. The faults are those of a record read directly, but a list
that is too long is found by its length.
-/

namespace ServiceSchema.Json.Buffered

variable {σ α : Type}

abbrev Decoder (α : Type) := Json → Except Fault α

namespace Decoder

def string : Decoder String
  | .string s => .ok s
  | j => .error (.wrongType j.found "a string")

def number : Decoder Number
  | .number n => .ok n
  | j => .error (.wrongType j.found "a JSON number")

def count : Decoder UInt64
  | .number (.integer i _) =>
    if i < 0 then .error (.wrongValue (.integer i) "u64") else .ok (UInt64.ofNat i.toNat)
  | j => .error (.wrongType j.found "u64")

def list (item : Decoder α) : Decoder (List α)
  | .array js => js.mapM item
  | j => .error (.wrongType j.found "a sequence")

/-- A value that null leaves absent. -/
def nullable (decode : Decoder α) : Decoder (Option α)
  | .null => .ok none
  | j => (decode j).map some

end Decoder

structure Field (σ : Type) where
  name : String
  needed : Bool
  set : Json → σ → Except Fault σ

namespace Field

def required (name : String) (decode : Decoder α) (set : α → σ → σ) : Field σ :=
  ⟨name, true, fun j s => (decode j).map (set · s)⟩

def optional (name : String) (decode : Decoder α) (set : Option α → σ → σ) : Field σ :=
  ⟨name, false, fun j s => (decode.nullable j).map (set · s)⟩

end Field

structure Format (σ : Type) where
  title : String
  blank : σ
  fields : List (Field σ)

namespace Format

def entriesFrom (f : Format σ) : List (String × Json) → σ × List String →
    Except Fault (σ × List String)
  | [], s => .ok s
  | (key, j) :: rest, (s, seen) =>
    match f.fields.find? (·.name == key) with
    | none => entriesFrom f rest (s, seen)
    | some field =>
      if seen.contains key then .error (.duplicateField key)
      else do entriesFrom f rest (← field.set j s, key :: seen)

def ofEntries (f : Format σ) (entries : List (String × Json)) : Except Fault σ := do
  let (s, seen) ← f.entriesFrom entries (f.blank, [])
  match f.fields.find? fun field => field.needed && !seen.contains field.name with
  | some field => .error (.missingField field.name)
  | none => .ok s

/-- Fills fields by position; items that are left over come with the record. -/
def itemsFrom (f : Format σ) : (index : Nat) → List (Field σ) → List Json → σ →
    Except Fault (σ × List Json)
  | _, [], js, s => .ok (s, js)
  | index, field :: rest, [], s =>
    if field.needed then
      .error (.wrongLength index (f.title ++ " with " ++ Json.Format.elementCount f.fields.length))
    else itemsFrom f (index + 1) rest [] s
  | index, field :: rest, j :: js, s => do itemsFrom f (index + 1) rest js (← field.set j s)

def ofItems (f : Format σ) (js : List Json) : Except Fault σ := do
  let (s, left) ← f.itemsFrom 0 f.fields js f.blank
  if left.isEmpty then .ok s
  else
    .error (.wrongLength js.length
      (Json.Format.elementCount f.fields.length ++ " in sequence"))

end Format

end ServiceSchema.Json.Buffered
