import ServiceSchema.Json.Basic
/-!
# Rules

Declarative constraints on members and records. A rule that sets bounds may leave any of them open,
and rules add up: the last rule that sets a bound decides it.
-/

namespace ServiceSchema

open Json (Number)

structure CountBounds where
  min : Option UInt64
  max : Option UInt64
deriving DecidableEq

namespace CountBounds

def unbounded : CountBounds :=
  ⟨none, none⟩

/-- The bounds of `new`, and those of `old` where `new` is open. -/
def overlay (old new : CountBounds) : CountBounds :=
  ⟨new.min <|> old.min, new.max <|> old.max⟩

end CountBounds

structure RangeBounds where
  gt : Option Number
  gte : Option Number
  lt : Option Number
  lte : Option Number
deriving DecidableEq

namespace RangeBounds

def unbounded : RangeBounds :=
  ⟨none, none, none, none⟩

def overlay (old new : RangeBounds) : RangeBounds :=
  ⟨new.gt <|> old.gt, new.gte <|> old.gte, new.lt <|> old.lt, new.lte <|> old.lte⟩

end RangeBounds

inductive Rule where
  /-- The length of a string. -/
  | length (bounds : CountBounds)
  | pattern (pattern : String)
  | enum (values : List String)
  | range (bounds : RangeBounds)
  | multipleOf (value : Number)
  /-- The number of items of an array. -/
  | items (bounds : CountBounds)
  /-- The number of keys of a record. -/
  | keys (bounds : CountBounds)
deriving DecidableEq

namespace Rule

inductive Kind where
  | length
  | pattern
  | enum
  | range
  | multipleOf
  | items
  | keys
deriving DecidableEq, Repr

namespace Kind

def all : List Kind :=
  [length, pattern, enum, range, multipleOf, items, keys]

def tag : Kind → String
  | length => "length"
  | pattern => "pattern"
  | enum => "enum"
  | range => "range"
  | multipleOf => "multiple-of"
  | items => "items"
  | keys => "keys"

end Kind

def kind : Rule → Kind
  | length _ => .length
  | pattern _ => .pattern
  | enum _ => .enum
  | range _ => .range
  | multipleOf _ => .multipleOf
  | items _ => .items
  | keys _ => .keys

def length? : Rule → Option CountBounds
  | length b => some b
  | _ => none

def pattern? : Rule → Option String
  | pattern p => some p
  | _ => none

def enum? : Rule → Option (List String)
  | enum vs => some vs
  | _ => none

def range? : Rule → Option RangeBounds
  | range b => some b
  | _ => none

def multipleOf? : Rule → Option Number
  | multipleOf n => some n
  | _ => none

def items? : Rule → Option CountBounds
  | items b => some b
  | _ => none

def keys? : Rule → Option CountBounds
  | keys b => some b
  | _ => none

def lengthBounds (rules : List Rule) : CountBounds :=
  (rules.filterMap length?).foldl CountBounds.overlay .unbounded

def itemBounds (rules : List Rule) : CountBounds :=
  (rules.filterMap items?).foldl CountBounds.overlay .unbounded

def keyBounds (rules : List Rule) : CountBounds :=
  (rules.filterMap keys?).foldl CountBounds.overlay .unbounded

def rangeBounds (rules : List Rule) : RangeBounds :=
  (rules.filterMap range?).foldl RangeBounds.overlay .unbounded

end Rule

end ServiceSchema
