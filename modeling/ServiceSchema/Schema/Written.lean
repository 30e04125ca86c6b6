import ServiceSchema.Schema.Basic
/-!
# Written schemas

The JSON form of schemas. The kind of a base and the name of an operation come first; a schema
without operations is written without a list of them. Reading looks fields up by their names, so
their order does not matter and further fields are left alone.
-/

namespace ServiceSchema

namespace Schema

open Json (strings natural)

def tagged (kind : String) (fields : List (String × Json)) : Json :=
  .object (("kind", .string kind) :: fields)

def operation (name : String) (arg : Json) : Json :=
  .object [("op", .string name), ("arg", arg)]

def bare (name : String) : Json :=
  .object [("op", .string name)]

def keyCountArg (count : UInt64) (message : String) : Json :=
  .object [("count", natural count), ("message", .string message)]

mutual

def toJson : Schema → Json
  | ⟨base, []⟩ => .object [("base", base.toJson)]
  | ⟨base, op :: ops⟩ =>
    .object [("base", base.toJson), ("ops", .array (op.toJson :: Op.listToJson ops))]

def Base.toJson : Base → Json
  | .string => tagged "string" []
  | .number coerce => tagged "number" [("coerce", .bool coerce)]
  | .boolean coerce => tagged "boolean" [("coerce", .bool coerce)]
  | .date coerce => tagged "date" [("coerce", .bool coerce)]
  | .any => tagged "any" []
  | .null => tagged "null" []
  | .literal value => tagged "literal" [("value", value)]
  | .enum values => tagged "enum" [("values", strings values)]
  | .ref name => tagged "ref" [("name", .string name)]
  | .lazy name => tagged "lazy" [("name", .string name)]
  | .object fields => tagged "object" [("fields", .array (Field.listToJson fields))]
  | .record value => tagged "record" [("value", value.toJson)]
  | .union variants => tagged "union" [("variants", .array (listToJson variants))]
  | .discriminatedUnion discriminator variants =>
    tagged "discriminated-union"
      [("discriminator", .string discriminator), ("variants", .array (listToJson variants))]
  | .unsupported reason => tagged "unsupported" [("reason", .string reason)]

def Op.toJson : Op → Json
  | .int => bare "int"
  | .min n => operation "min" (natural n)
  | .max n => operation "max" (natural n)
  | .length n => operation "length" (natural n)
  | .nonempty => bare "nonempty"
  | .regex pattern => operation "regex" (.string pattern)
  | .gt n => operation "gt" (.number n)
  | .gte n => operation "gte" (.number n)
  | .lt n => operation "lt" (.number n)
  | .lte n => operation "lte" (.number n)
  | .positive => bare "positive"
  | .nonnegative => bare "nonnegative"
  | .negative => bare "negative"
  | .nonpositive => bare "nonpositive"
  | .multipleOf n => operation "multiple-of" (.number n)
  | .default value => operation "default" value
  | .array => bare "array"
  | .optional => bare "optional"
  | .catchall value => operation "catchall" value.toJson
  | .minKeys count message => operation "min-keys" (keyCountArg count message)
  | .maxKeys count message => operation "max-keys" (keyCountArg count message)
  | .keyCheck key known =>
    operation "key-check" (.object [("key", key.toJson), ("known", strings known)])

def Field.toJson : Field → Json
  | ⟨name, schema⟩ => .object [("name", .string name), ("schema", schema.toJson)]

def listToJson : List Schema → List Json
  | [] => []
  | s :: ss => s.toJson :: listToJson ss

def Field.listToJson : List Field → List Json
  | [] => []
  | f :: fs => f.toJson :: Field.listToJson fs

def Op.listToJson : List Op → List Json
  | [] => []
  | o :: os => o.toJson :: Op.listToJson os

end

namespace Reading

def string? : Json → Option String
  | .string s => some s
  | _ => none

def bool? : Json → Option Bool
  | .bool b => some b
  | _ => none

def number? : Json → Option Json.Number
  | .number n => some n
  | _ => none

def count? : Json → Option UInt64
  | .number (.integer i _) => if i < 0 then none else some (UInt64.ofNat i.toNat)
  | _ => none

def array? : Json → Option (List Json)
  | .array js => some js
  | _ => none

def strings? (j : Json) : Option (List String) := do
  (← array? j).mapM string?

end Reading

open Reading

mutual

/-- Reads a written schema that nests no deeper than `fuel` values. -/
def ofJsonWithin? : (fuel : Nat) → Json → Option Schema
  | 0, _ => none
  | fuel + 1, j => do
    let base ← Base.ofJsonWithin? fuel (← j.get? "base")
    match j.get? "ops" with
    | none => some ⟨base, []⟩
    | some ops => return ⟨base, ← (← array? ops).mapM (Op.ofJsonWithin? fuel)⟩

def Base.ofJsonWithin? : (fuel : Nat) → Json → Option Base
  | 0, _ => none
  | fuel + 1, j => do
    let schemas := fun key => do (← array? (← j.get? key)).mapM (ofJsonWithin? fuel)
    match ← string? (← j.get? "kind") with
    | "string" => return .string
    | "number" => return .number (← bool? (← j.get? "coerce"))
    | "boolean" => return .boolean (← bool? (← j.get? "coerce"))
    | "date" => return .date (← bool? (← j.get? "coerce"))
    | "any" => return .any
    | "null" => return .null
    | "literal" => return .literal (← j.get? "value")
    | "enum" => return .enum (← strings? (← j.get? "values"))
    | "ref" => return .ref (← string? (← j.get? "name"))
    | "lazy" => return .lazy (← string? (← j.get? "name"))
    | "object" =>
      return .object (← (← array? (← j.get? "fields")).mapM (Field.ofJsonWithin? fuel))
    | "record" => return .record (← ofJsonWithin? fuel (← j.get? "value"))
    | "union" => return .union (← schemas "variants")
    | "discriminated-union" =>
      return .discriminatedUnion (← string? (← j.get? "discriminator")) (← schemas "variants")
    | "unsupported" => return .unsupported (← string? (← j.get? "reason"))
    | _ => none

def Op.ofJsonWithin? : (fuel : Nat) → Json → Option Op
  | 0, _ => none
  | fuel + 1, j => do
    let arg := j.get? "arg"
    match ← string? (← j.get? "op") with
    | "int" => return .int
    | "min" => return .min (← count? (← arg))
    | "max" => return .max (← count? (← arg))
    | "length" => return .length (← count? (← arg))
    | "nonempty" => return .nonempty
    | "regex" => return .regex (← string? (← arg))
    | "gt" => return .gt (← number? (← arg))
    | "gte" => return .gte (← number? (← arg))
    | "lt" => return .lt (← number? (← arg))
    | "lte" => return .lte (← number? (← arg))
    | "positive" => return .positive
    | "nonnegative" => return .nonnegative
    | "negative" => return .negative
    | "nonpositive" => return .nonpositive
    | "multiple-of" => return .multipleOf (← number? (← arg))
    | "default" => return .default (← arg)
    | "array" => return .array
    | "optional" => return .optional
    | "catchall" => return .catchall (← ofJsonWithin? fuel (← arg))
    | "min-keys" =>
      return .minKeys (← count? (← (← arg).get? "count")) (← string? (← (← arg).get? "message"))
    | "max-keys" =>
      return .maxKeys (← count? (← (← arg).get? "count")) (← string? (← (← arg).get? "message"))
    | "key-check" =>
      return .keyCheck (← ofJsonWithin? fuel (← (← arg).get? "key"))
        (← strings? (← (← arg).get? "known"))
    | _ => none

def Field.ofJsonWithin? : (fuel : Nat) → Json → Option Field
  | 0, _ => none
  | fuel + 1, j => do
    return ⟨← string? (← j.get? "name"), ← ofJsonWithin? fuel (← j.get? "schema")⟩

end

def ofJson? (j : Json) : Option Schema :=
  ofJsonWithin? j.depth j

end Schema

end ServiceSchema
