import ServiceSchema.Model.Member
import ServiceSchema.Schema.Basic
/-!
# Schemas of members

A member's schema is the schema of one element, followed by the array operations, the default and
the optionality, in this order. Constraints come in a fixed order too, however the rules are mixed.
-/

namespace ServiceSchema

open Schema (Op)

/-- What a member is to its entity. Only fields may be optional; the presence of the others is
decided elsewhere. -/
inductive Role where
  | field
  | variant
  | mapKey
  | mapValue
deriving DecidableEq, Repr

/-- The entity that owns a member, and the names of the circular group. -/
structure Scope where
  owner : String
  circular : List String

namespace Scope

/-- A reference that may point at a schema declared later is looked up when it is used. -/
def reference (sc : Scope) (name : String) : Schema :=
  if name = sc.owner ∨ name ∈ sc.circular then Schema.lazyRef name else Schema.ref name

end Scope

namespace CountBounds

def minOp (n : UInt64) : Op :=
  if n = 1 then .nonempty else .min n

def ops (b : CountBounds) : List Op :=
  b.min.toList.map minOp ++ b.max.toList.map .max

/-- The operations on the length of a string; equal bounds give the exact length. -/
def lengthOps (b : CountBounds) : List Op :=
  match b.min, b.max with
  | some lo, some hi => if lo = hi then [.length lo] else b.ops
  | _, _ => b.ops

end CountBounds

namespace RangeBounds

open Json (Number)

def gtOp (n : Number) : Op :=
  if n.isZero then .positive else .gt n

def gteOp (n : Number) : Op :=
  if n.isZero then .nonnegative else .gte n

def ltOp (n : Number) : Op :=
  if n.isZero then .negative else .lt n

def lteOp (n : Number) : Op :=
  if n.isZero then .nonpositive else .lte n

def ops (b : RangeBounds) : List Op :=
  b.gt.toList.map gtOp ++ b.gte.toList.map gteOp ++ b.lt.toList.map ltOp ++ b.lte.toList.map lteOp

end RangeBounds

namespace Member

def stringSchema (m : Member) : Schema :=
  match m.constant with
  | some value => Schema.literal value
  | none =>
    match m.rules.findSome? Rule.enum? with
    | some values => .ofBase (.enum values)
    | none =>
      ⟨.string, (Rule.lengthBounds m.rules).lengthOps ++
        (m.rules.filterMap Rule.pattern?).map .regex⟩

def numberSchema (integral : Bool) (m : Member) : Schema :=
  match m.constant with
  | some value => Schema.literal value
  | none =>
    ⟨.number m.coerces, (if integral then [.int] else []) ++ (Rule.rangeBounds m.rules).ops ++
      (m.rules.filterMap Rule.multipleOf?).map .multipleOf⟩

def booleanSchema (m : Member) : Schema :=
  match m.constant with
  | some value => Schema.literal value
  | none => .ofBase (.boolean m.coerces)

def primitiveSchema (m : Member) : Primitive → Schema
  | .null => .ofBase .null
  | .string => m.stringSchema
  | .number | .float | .double => m.numberSchema false
  | .integer | .long => m.numberSchema true
  | .boolean => m.booleanSchema
  | .date | .dateTime => .ofBase (.date true)
  | .binary | .untyped => .ofBase .any

def elementSchema (sc : Scope) (m : Member) : Schema :=
  match m.type with
  | .primitive p => m.primitiveSchema p
  | .named name => sc.reference name

def arrayOps (m : Member) : List Op :=
  if m.isArray then .array :: (Rule.itemBounds m.rules).ops else []

def takesDefault : TypeRef → Bool
  | .primitive p => p == .string || p == .boolean || p.isNumeric
  | .named _ => false

/-- The default that takes effect; a constant leaves no room for one. -/
def effectiveDefault (m : Member) : Option Json :=
  if m.constant.isNone && takesDefault m.type then m.default else none

def optionalOps (role : Role) (m : Member) : List Op :=
  if !m.isRequired && role == .field && m.effectiveDefault.isNone then [.optional] else []

def schema (sc : Scope) (role : Role) (m : Member) : Schema :=
  (m.elementSchema sc).andThen
    (m.arrayOps ++ m.effectiveDefault.toList.map .default ++ m.optionalOps role)

end Member

end ServiceSchema
