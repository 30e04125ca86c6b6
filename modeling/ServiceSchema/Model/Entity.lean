import ServiceSchema.Model.Member
/-!
# Entities

An entity is what gets a schema of its own: a record, the parameters of a method, a union or an
enumeration. Entities refer to one another by name.
-/

/-!
## Names

Names are ordered character by character. Sorting by name keeps the order of what has equal names.
-/

namespace ServiceSchema.Names

variable {α : Type}

def insertBy (name : α → String) (a : α) : List α → List α
  | [] => [a]
  | b :: bs => if name b < name a then b :: insertBy name a bs else a :: b :: bs

/-- The elements in the order of their names; equal names keep their order. -/
def sortBy (name : α → String) (as : List α) : List α :=
  as.foldr (insertBy name) []

def insertDistinct (n : String) : List String → List String
  | [] => [n]
  | m :: ms => if n < m then n :: m :: ms else if n = m then m :: ms else m :: insertDistinct n ms

def distinct (ns : List String) : List String :=
  ns.foldr insertDistinct []

def firstRepeated : (seen : List String) → List String → Option String
  | _, [] => none
  | seen, n :: ns => if seen.contains n then some n else firstRepeated (n :: seen) ns

end ServiceSchema.Names

/-! ## Entities -/

namespace ServiceSchema

structure Record where
  members : List Member
  map : Option MapExtension
  /-- Rules on the record as a whole. -/
  rules : List Rule

structure ParameterBag where
  interface : String
  method : String
  members : List Member

structure Union where
  variants : List Member
  discriminator : Option String

/-- What the variants of a union have in common. -/
inductive UnionShape where
  | empty
  /-- A single variant that names an entity. -/
  | alias (variant : Member)
  | allPrimitive
  | mixed

namespace Union

def shape (u : Union) : UnionShape :=
  match u.variants with
  | [] => .empty
  | [only] => if only.type.isPrimitive then .allPrimitive else .alias only
  | variants => if variants.all (·.type.isPrimitive) then .allPrimitive else .mixed

end Union

inductive EntityKind where
  | record (r : Record)
  | parameterBag (b : ParameterBag)
  | union (u : Union)
  | enum (values : List String)

structure Entity where
  name : String
  kind : EntityKind

namespace Entity

def record (name : String) (members : List Member) : Entity :=
  ⟨name, .record ⟨members, none, []⟩⟩

def map (name : String) (r : Record) : Entity :=
  ⟨name, .record r⟩

def union (name : String) (variants : List Member) (discriminator : Option String) : Entity :=
  ⟨name, .union ⟨variants, discriminator⟩⟩

def stringEnum (name : String) (values : List String) : Entity :=
  ⟨name, .enum values⟩

/-- The members whose types may name other entities. -/
def members (e : Entity) : List Member :=
  match e.kind with
  | .record r =>
    r.members ++ match r.map with
      | some m => [m.key, m.value]
      | none => []
  | .parameterBag b => b.members
  | .union u => u.variants
  | .enum _ => []

/-- The names of the other entities that an entity refers to, in increasing order. A reference to
the entity itself is no dependency. -/
def dependencies (e : Entity) : List String :=
  Names.distinct ((e.members.filterMap (·.type.name?)).filter (· != e.name))

end Entity

end ServiceSchema
