import ServiceSchema.Model.Rule
/-!
# Members

Fields, method parameters, map keys, map values and union variants all have the form of a member: a
type, possibly an array of it, with rules and constants.
-/

namespace ServiceSchema

/-!
## Types

The type of a member is a primitive or the name of another entity. Both are written as one tag, and
the tags of primitives are reserved.
-/

inductive Primitive where
  | string
  | number
  | integer
  | long
  | float
  | double
  | boolean
  | date
  | dateTime
  | binary
  | untyped
  | null
deriving DecidableEq, Repr

namespace Primitive

def all : List Primitive :=
  [string, number, integer, long, float, double, boolean, date, dateTime, binary, untyped, null]

def tag : Primitive → String
  | string => "string"
  | number => "number"
  | integer => "integer"
  | long => "long"
  | float => "float"
  | double => "double"
  | boolean => "boolean"
  | date => "date"
  | dateTime => "date-time"
  | binary => "binary"
  | untyped => "untyped"
  | null => "null"

/-- The primitive with a tag; any other name is an entity's. -/
def ofTag? (tag : String) : Option Primitive :=
  all.find? (·.tag == tag)

def isNumeric : Primitive → Bool
  | number | integer | long | float | double => true
  | _ => false

def isIntegral : Primitive → Bool
  | integer | long => true
  | _ => false

end Primitive

inductive TypeRef where
  | primitive (p : Primitive)
  | named (name : String)
deriving DecidableEq, Repr

namespace TypeRef

def ofTag (tag : String) : TypeRef :=
  match Primitive.ofTag? tag with
  | some p => primitive p
  | none => named tag

def tag : TypeRef → String
  | primitive p => p.tag
  | named name => name

def isPrimitive : TypeRef → Bool
  | primitive _ => true
  | named _ => false

def name? : TypeRef → Option String
  | primitive _ => none
  | named name => some name

end TypeRef

/-! ## Members -/

/-- Where a method parameter travels. -/
inductive ParamLocation where
  | header
  | query
  | path
  | body
deriving DecidableEq, Repr

namespace ParamLocation

def all : List ParamLocation :=
  [header, query, path, body]

def tag : ParamLocation → String
  | header => "header"
  | query => "query"
  | path => "path"
  | body => "body"

/-- Outside the body every value arrives as text and has to be converted. -/
def coerces : ParamLocation → Bool
  | body => false
  | _ => true

end ParamLocation

structure Member where
  /-- Empty for the key and the value of a map. -/
  name : String
  type : TypeRef
  isArray : Bool
  isRequired : Bool
  constant : Option Json
  default : Option Json
  rules : List Rule
  /-- Only method parameters have a location. -/
  location : Option ParamLocation

namespace Member

def required (name : String) (type : TypeRef) : Member :=
  ⟨name, type, false, true, none, none, [], none⟩

def optional (name : String) (type : TypeRef) : Member :=
  { required name type with isRequired := false }

def array (m : Member) : Member :=
  { m with isArray := true }

def withRule (m : Member) (r : Rule) : Member :=
  { m with rules := m.rules ++ [r] }

def withConstant (m : Member) (j : Json) : Member :=
  { m with constant := some j }

def withDefault (m : Member) (j : Json) : Member :=
  { m with default := some j }

def located (m : Member) (l : ParamLocation) : Member :=
  { m with location := some l }

def coerces (m : Member) : Bool :=
  m.location.any (·.coerces)

end Member

/-- The open part of a record: further keys and values, each with a schema of its own. -/
structure MapExtension where
  key : Member
  value : Member
  /-- Keys that have to be there. -/
  requiredKeys : List String

end ServiceSchema
