import ServiceSchema.Model.Entity
import ServiceSchema.Schema.Member
/-!
# Schemas of entities

Records become objects with one field for each declared member and for each required key that no
member declares; a map extension adds a schema for all further keys. A record without any such field
is keyed by arbitrary strings.
-/

namespace ServiceSchema

open Schema (Op)

namespace Record

def declaredNames (r : Record) : List String :=
  r.members.map Member.name

/-- The required keys of the map that no member declares. -/
def addedKeys (r : Record) : List String :=
  match r.map with
  | some m => m.requiredKeys.filter fun k => !r.declaredNames.contains k
  | none => []

def knownKeys (r : Record) : List String :=
  r.declaredNames ++ r.addedKeys

def declaredFields (sc : Scope) (r : Record) : List Schema.Field :=
  r.members.map fun m => ⟨m.name, m.schema sc .field⟩

def addedFields (sc : Scope) (r : Record) : List Schema.Field :=
  match r.map with
  | some m => r.addedKeys.map fun k => ⟨k, m.value.schema sc .mapValue⟩
  | none => []

def fields (sc : Scope) (r : Record) : List Schema.Field :=
  r.declaredFields sc ++ r.addedFields sc

def valueSchema (sc : Scope) (r : Record) : Schema :=
  match r.map with
  | some m => m.value.schema sc .mapValue
  | none => .ofBase .any

def keyBounds (r : Record) : CountBounds :=
  Rule.keyBounds r.rules

/-- Whether the bound on the number of keys leaves room beside the fields. -/
def hasRoom (r : Record) : Bool :=
  r.keyBounds.max.all fun n => r.knownKeys.length < n.toNat

def catchallOps (sc : Scope) (r : Record) : List Op :=
  match r.map with
  | some m =>
    if !r.knownKeys.isEmpty && r.hasRoom then [.catchall (m.value.schema sc .mapValue)] else []
  | none => []

def keysNoun (n : UInt64) : String :=
  if n = 1 then "key" else "keys"

def minKeysOp (name : String) (n : UInt64) : Op :=
  .minKeys n (name ++ " must have at least " ++ toString n ++ " " ++ keysNoun n)

def maxKeysOp (name : String) (n : UInt64) : Op :=
  .maxKeys n (name ++ " must have at most " ++ toString n ++ " " ++ keysNoun n)

/-- Keys are checked when their member says more than that they are strings. -/
def keyCheckOps (sc : Scope) (r : Record) : List Op :=
  match r.map with
  | some m =>
    if !m.key.rules.isEmpty || !m.key.type.isPrimitive then
      [.keyCheck (m.key.schema sc .mapKey) r.knownKeys]
    else []
  | none => []

def base (sc : Scope) (r : Record) : Schema.Base :=
  if r.knownKeys.isEmpty then .record (r.valueSchema sc) else .object (r.fields sc)

def schema (sc : Scope) (r : Record) : Schema :=
  ⟨r.base sc, r.catchallOps sc ++ r.keyBounds.min.toList.map (minKeysOp sc.owner) ++
    r.keyBounds.max.toList.map (maxKeysOp sc.owner) ++ r.keyCheckOps sc⟩

end Record

namespace ParameterBag

def schema (sc : Scope) (b : ParameterBag) : Schema :=
  .ofBase (.object (b.members.map fun m => ⟨m.name, m.schema sc .field⟩))

end ParameterBag

namespace Union

def schema (sc : Scope) (u : Union) : Schema :=
  match u.shape with
  | .alias variant => variant.schema sc .variant
  | .empty => .ofBase (.unsupported "union has no variants")
  | .allPrimitive => .ofBase (.unsupported "unions of primitive types are not supported")
  | .mixed =>
    let variants := u.variants.map (·.schema sc .variant)
    match u.discriminator with
    | some d => .ofBase (.discriminatedUnion d variants)
    | none => .ofBase (.union variants)

end Union

namespace Entity

def schema (circular : List String) (e : Entity) : Schema :=
  let sc : Scope := ⟨e.name, circular⟩
  match e.kind with
  | .record r => r.schema sc
  | .parameterBag b => b.schema sc
  | .union u => u.schema sc
  | .enum values => .ofBase (.enum values)

end Entity

end ServiceSchema
