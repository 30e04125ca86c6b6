import ServiceSchema.Json.Printer
import ServiceSchema.Model.Service
/-!
# Written forms

The JSON form of service descriptions, entities and their parts. Fields stand in a fixed order;
absent constants, defaults, locations, rules and required keys are left out, all other absent values
are null.
-/

namespace ServiceSchema

namespace Json

def orNull {α : Type} (write : α → Json) : Option α → Json
  | some a => write a
  | none => null

/-- An entry that is left out when there is no value. -/
def entry? {α : Type} (key : String) (write : α → Json) : Option α → List (String × Json)
  | some a => [(key, write a)]
  | none => []

def entryUnlessEmpty {α : Type} (key : String) (write : α → Json) :
    List α → List (String × Json)
  | [] => []
  | a :: as => [(key, array ((a :: as).map write))]

end Json

open Json (orNull entry? entryUnlessEmpty strings)

def CountBounds.toEntries (b : CountBounds) : List (String × Json) :=
  [("min", orNull Json.natural b.min), ("max", orNull Json.natural b.max)]

def RangeBounds.toEntries (b : RangeBounds) : List (String × Json) :=
  [("gt", orNull Json.number b.gt), ("gte", orNull Json.number b.gte),
    ("lt", orNull Json.number b.lt), ("lte", orNull Json.number b.lte)]

namespace Rule

def content : Rule → List (String × Json)
  | length b => b.toEntries
  | pattern p => [("pattern", .string p)]
  | enum values => [("values", strings values)]
  | range b => b.toEntries
  | multipleOf n => [("value", .number n)]
  | items b => b.toEntries
  | keys b => b.toEntries

def toJson (r : Rule) : Json :=
  .object (("kind", .string r.kind.tag) :: r.content)

end Rule

def TypeRef.toJson (t : TypeRef) : Json :=
  .string t.tag

def ParamLocation.toJson (l : ParamLocation) : Json :=
  .string l.tag

def Member.toJson (m : Member) : Json :=
  .object (
    [("name", .string m.name), ("type", m.type.toJson), ("array", .bool m.isArray),
      ("required", .bool m.isRequired)] ++
    entry? "const" id m.constant ++ entry? "default" id m.default ++
    entryUnlessEmpty "rules" Rule.toJson m.rules ++
    entry? "location" ParamLocation.toJson m.location)

def MapExtension.toJson (m : MapExtension) : Json :=
  .object (
    [("key", m.key.toJson), ("value", m.value.toJson)] ++
    entryUnlessEmpty "required_keys" Json.string m.requiredKeys)

def TypeDecl.toJson (d : TypeDecl) : Json :=
  .object [("name", .string d.name), ("fields", .array (d.fields.map Member.toJson)),
    ("map", orNull MapExtension.toJson d.map), ("rules", .array (d.rules.map Rule.toJson))]

def Method.toJson (m : Method) : Json :=
  .object [("name", .string m.name), ("params", .array (m.params.map Member.toJson)),
    ("http", .object (m.http.map fun e => (e.1, e.2.toJson)))]

def Interface.toJson (i : Interface) : Json :=
  .object [("name", .string i.name), ("methods", .array (i.methods.map Method.toJson))]

def UnionDecl.toJson (d : UnionDecl) : Json :=
  .object [("name", .string d.name), ("variants", .array (d.variants.map Member.toJson)),
    ("discriminator", orNull Json.string d.discriminator)]

def EnumDecl.toJson (d : EnumDecl) : Json :=
  .object [("name", .string d.name), ("values", strings d.values)]

def ServiceModel.toJson (m : ServiceModel) : Json :=
  .object [("types", .array (m.types.map TypeDecl.toJson)),
    ("interfaces", .array (m.interfaces.map Interface.toJson)),
    ("unions", .array (m.unions.map UnionDecl.toJson)),
    ("enums", .array (m.enums.map EnumDecl.toJson))]

def Record.toJson (r : Record) : Json :=
  .object [("members", .array (r.members.map Member.toJson)),
    ("map", orNull MapExtension.toJson r.map), ("rules", .array (r.rules.map Rule.toJson))]

def ParameterBag.toJson (b : ParameterBag) : Json :=
  .object [("interface", .string b.interface), ("method", .string b.method),
    ("members", .array (b.members.map Member.toJson))]

def Union.toJson (u : Union) : Json :=
  .object [("variants", .array (u.variants.map Member.toJson)),
    ("discriminator", orNull Json.string u.discriminator)]

def EntityKind.toJson : EntityKind → Json
  | record r => .object [("Record", r.toJson)]
  | parameterBag b => .object [("ParameterBag", b.toJson)]
  | union u => .object [("Union", u.toJson)]
  | enum values => .object [("Enum", .object [("values", strings values)])]

def Entity.toJson (e : Entity) : Json :=
  .object [("name", .string e.name), ("kind", e.kind.toJson)]

def ServiceModel.text (m : ServiceModel) : String :=
  String.ofList m.toJson.compact

end ServiceSchema
