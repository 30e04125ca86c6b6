import ServiceSchema.Json.Basic
/-!
# Schemas

A schema is a base followed by operations in the order in which they apply. It does not depend on
the syntax in which it will be written.
-/

namespace ServiceSchema

open Json (Number)

mutual

structure Schema where
  base : Schema.Base
  ops : List Schema.Op

inductive Schema.Base where
  | string
  | number (coerce : Bool)
  | boolean (coerce : Bool)
  | date (coerce : Bool)
  | any
  | null
  | literal (value : Json)
  | enum (values : List String)
  /-- The schema of another entity, declared earlier. -/
  | ref (name : String)
  /-- The schema of an entity, looked up when it is used. -/
  | lazy (name : String)
  | object (fields : List Schema.Field)
  /-- A record with any string keys. -/
  | record (value : Schema)
  | union (variants : List Schema)
  | discriminatedUnion (discriminator : String) (variants : List Schema)
  /-- A construct that has no schema. -/
  | unsupported (reason : String)

structure Schema.Field where
  name : String
  schema : Schema

inductive Schema.Op where
  | int
  /-- The least length of a string or number of items. -/
  | min (n : UInt64)
  /-- The greatest length of a string or number of items. -/
  | max (n : UInt64)
  | length (n : UInt64)
  | nonempty
  | regex (pattern : String)
  | gt (n : Number)
  | gte (n : Number)
  | lt (n : Number)
  | lte (n : Number)
  | positive
  | nonnegative
  | negative
  | nonpositive
  | multipleOf (n : Number)
  | default (value : Json)
  | array
  | optional
  /-- The schema of the values under keys that are no fields. -/
  | catchall (value : Schema)
  | minKeys (count : UInt64) (message : String)
  | maxKeys (count : UInt64) (message : String)
  /-- Keys other than the known ones have to satisfy a schema. -/
  | keyCheck (key : Schema) (known : List String)

end

namespace Schema

def ofBase (b : Base) : Schema :=
  ⟨b, []⟩

def andThen (s : Schema) (ops : List Op) : Schema :=
  ⟨s.base, s.ops ++ ops⟩

def ref (name : String) : Schema :=
  ofBase (.ref name)

def lazyRef (name : String) : Schema :=
  ofBase (.lazy name)

def literal (value : Json) : Schema :=
  ofBase (.literal value)

def Op.isOptional : Op → Bool
  | optional => true
  | _ => false

def isOptional (s : Schema) : Bool :=
  s.ops.any (·.isOptional)

mutual

def containsLazy : Schema → Bool
  | ⟨base, ops⟩ => base.containsLazy || Op.anyLazy ops

def Base.containsLazy : Base → Bool
  | .lazy _ => true
  | .object fields => Field.anyLazy fields
  | .record value => value.containsLazy
  | .union variants => anyLazy variants
  | .discriminatedUnion _ variants => anyLazy variants
  | _ => false

def Op.containsLazy : Op → Bool
  | .catchall value => value.containsLazy
  | .keyCheck key _ => key.containsLazy
  | _ => false

def Field.containsLazy : Field → Bool
  | ⟨_, schema⟩ => schema.containsLazy

def anyLazy : List Schema → Bool
  | [] => false
  | s :: ss => s.containsLazy || anyLazy ss

def Field.anyLazy : List Field → Bool
  | [] => false
  | f :: fs => f.containsLazy || Field.anyLazy fs

def Op.anyLazy : List Op → Bool
  | [] => false
  | o :: os => o.containsLazy || Op.anyLazy os

end

end Schema

end ServiceSchema
