import ServiceSchema.Json.Record
import ServiceSchema.Model.Written
/-!
# Reading descriptions

Readers for service descriptions, entities and their parts.
-/

namespace ServiceSchema

open Json (Reader Nested Field Format Case Fault)
open Json.Reader (string bool list keyed nullable)

namespace Rule

open Json.Buffered (Decoder)

def countFormat (kind : String) : Json.Buffered.Format CountBounds where
  title := "struct variant Rule::" ++ kind
  blank := .unbounded
  fields := [
    .optional "min" Decoder.count fun n b => { b with min := n },
    .optional "max" Decoder.count fun n b => { b with max := n }]

def rangeFormat : Json.Buffered.Format RangeBounds where
  title := "struct variant Rule::Range"
  blank := .unbounded
  fields := [
    .optional "gt" Decoder.number fun n b => { b with gt := n },
    .optional "gte" Decoder.number fun n b => { b with gte := n },
    .optional "lt" Decoder.number fun n b => { b with lt := n },
    .optional "lte" Decoder.number fun n b => { b with lte := n }]

def patternFormat : Json.Buffered.Format String where
  title := "struct variant Rule::Pattern"
  blank := ""
  fields := [.required "pattern" Decoder.string fun p _ => p]

def enumFormat : Json.Buffered.Format (List String) where
  title := "struct variant Rule::Enum"
  blank := []
  fields := [.required "values" (Decoder.list Decoder.string) fun vs _ => vs]

def multipleOfFormat : Json.Buffered.Format Json.Number where
  title := "struct variant Rule::MultipleOf"
  blank := .ofNat 0
  fields := [.required "value" Decoder.number fun n _ => n]

/-- The buffered fields of a rule, by name or by position. -/
inductive Fields where
  | entries (es : List (String × Json))
  | items (js : List Json)

def Fields.decode {σ : Type} (f : Json.Buffered.Format σ) : Fields → Except Fault σ
  | entries es => f.ofEntries es
  | items js => f.ofItems js

def ofFields (fields : Fields) : Kind → Except Fault Rule
  | .length => (fields.decode (countFormat "Length")).map length
  | .pattern => (fields.decode patternFormat).map pattern
  | .enum => (fields.decode enumFormat).map enum
  | .range => (fields.decode rangeFormat).map range
  | .multipleOf => (fields.decode multipleOfFormat).map multipleOf
  | .items => (fields.decode (countFormat "Items")).map items
  | .keys => (fields.decode (countFormat "Keys")).map keys

def readKind : Reader Kind := do
  let name ← Reader.stringAs "variant identifier"
  match Kind.all.find? (·.tag == name) with
  | some kind => return kind
  | none => Reader.fail (.unknownVariant name (Kind.all.map Kind.tag))

def readEntry (d : Nat) (key : String) (s : Option Kind × List (String × Json)) :
    Reader (Option Kind × List (String × Json)) := do
  if key = "kind" then
    if s.1.isSome then Reader.fail (.duplicateField "kind")
    else
      Reader.colon
      return (some (← readKind), s.2)
  else
    Reader.colon
    return (s.1, (key, ← Reader.value d) :: s.2)

def fromObject : Nested (Kind × Fields) := fun d => do
  let (kind?, reversed) ← Reader.foldEntries (readEntry d) (none, [])
  match kind? with
  | none => Reader.fail (.missingField "kind")
  | some kind =>
    Json.pass
    return (kind, .entries reversed.reverse)

def fromArray : Nested (Kind × Fields) := fun d => do
  if ← Reader.anotherItem true then
    let kind ← readKind
    return (kind, .items (← fun cs => Reader.itemsFrom (Reader.value d) (cs.length + 1) false cs))
  else Reader.fail (.missingField "kind")

def read : Nested Rule := fun d => do
  let (kind, fields) ← (do
    match ← Json.head with
    | .list => Reader.opened fromArray d
    | .object => Reader.opened fromObject d
    | h => Reader.wrongType h "internally tagged enum Rule")
  match ofFields fields kind with
  | .ok r => return r
  | .error f => Reader.fail f

end Rule

namespace TypeRef

def read : Reader TypeRef := do
  return ofTag (← string)

end TypeRef

namespace ParamLocation

def read : Nested ParamLocation :=
  Case.read (all.map fun l => .plain l.tag l)

end ParamLocation

namespace Member

def format : Format Member where
  title := "Member"
  blank := { required "" (.named "") with isRequired := false }
  fields := [
    .optional "name" (fun _ => string) fun s m => { m with name := s },
    .required "type" (fun _ => TypeRef.read) fun t m => { m with type := t },
    .optional "array" (fun _ => bool) fun b m => { m with isArray := b },
    .optional "required" (fun _ => bool) fun b m => { m with isRequired := b },
    .optional "const" (fun d => nullable (Reader.constant d)) fun j m => { m with constant := j },
    .optional "default" (fun d => nullable (Reader.constant d)) fun j m => { m with default := j },
    .optional "rules" (list Rule.read) fun rs m => { m with rules := rs },
    .optional "location" (fun d => nullable (ParamLocation.read d))
      fun l m => { m with location := l }]

end Member

namespace MapExtension

def format : Format MapExtension where
  title := "MapExtension"
  blank := ⟨Member.format.blank, Member.format.blank, []⟩
  fields := [
    .required "key" Member.format.read fun k m => { m with key := k },
    .required "value" Member.format.read fun v m => { m with value := v },
    .optional "required_keys" (list fun _ => string) fun ks m => { m with requiredKeys := ks }]

end MapExtension

namespace TypeDecl

def format : Format TypeDecl where
  title := "TypeDecl"
  blank := ⟨"", [], none, []⟩
  fields := [
    .required "name" (fun _ => string) fun s t => { t with name := s },
    .optional "fields" (list Member.format.read) fun ms t => { t with fields := ms },
    .optional "map" (fun d => nullable (MapExtension.format.read d)) fun m t => { t with map := m },
    .optional "rules" (list Rule.read) fun rs t => { t with rules := rs }]

end TypeDecl

namespace Method

def format : Format Method where
  title := "Method"
  blank := ⟨"", [], []⟩
  fields := [
    .required "name" (fun _ => string) fun s m => { m with name := s },
    .optional "params" (list Member.format.read) fun ms m => { m with params := ms },
    .optional "http" (keyed ParamLocation.read) fun t m => { m with http := t }]

end Method

namespace Interface

def format : Format Interface where
  title := "Interface"
  blank := ⟨"", []⟩
  fields := [
    .required "name" (fun _ => string) fun s i => { i with name := s },
    .optional "methods" (list Method.format.read) fun ms i => { i with methods := ms }]

end Interface

namespace UnionDecl

def format : Format UnionDecl where
  title := "UnionDecl"
  blank := ⟨"", [], none⟩
  fields := [
    .required "name" (fun _ => string) fun s u => { u with name := s },
    .optional "variants" (list Member.format.read) fun ms u => { u with variants := ms },
    .optional "discriminator" (fun _ => nullable string) fun d u => { u with discriminator := d }]

end UnionDecl

namespace EnumDecl

def format : Format EnumDecl where
  title := "EnumDecl"
  blank := ⟨"", []⟩
  fields := [
    .required "name" (fun _ => string) fun s e => { e with name := s },
    .optional "values" (list fun _ => string) fun vs e => { e with values := vs }]

end EnumDecl

namespace ServiceModel

def format : Format ServiceModel where
  title := "ServiceModel"
  blank := .empty
  fields := [
    .optional "types" (list TypeDecl.format.read) fun ts m => { m with types := ts },
    .optional "interfaces" (list Interface.format.read) fun is m => { m with interfaces := is },
    .optional "unions" (list UnionDecl.format.read) fun us m => { m with unions := us },
    .optional "enums" (list EnumDecl.format.read) fun es m => { m with enums := es }]

def ofText (text : String) : Except Fault ServiceModel :=
  Json.readAll (format.read Json.openLimit) text

end ServiceModel

namespace Record

def format : Format Record where
  title := "RecordDef"
  blank := ⟨[], none, []⟩
  fields := [
    .required "members" (list Member.format.read) fun ms r => { r with members := ms },
    .omittable "map" (fun d => nullable (MapExtension.format.read d))
      fun m r => { r with map := m },
    .required "rules" (list Rule.read) fun rs r => { r with rules := rs }]

end Record

namespace ParameterBag

def format : Format ParameterBag where
  title := "ParameterBag"
  blank := ⟨"", "", []⟩
  fields := [
    .required "interface" (fun _ => string) fun s b => { b with interface := s },
    .required "method" (fun _ => string) fun s b => { b with method := s },
    .required "members" (list Member.format.read) fun ms b => { b with members := ms }]

end ParameterBag

namespace Union

def format : Format Union where
  title := "UnionDef"
  blank := ⟨[], none⟩
  fields := [
    .required "variants" (list Member.format.read) fun ms u => { u with variants := ms },
    .omittable "discriminator" (fun _ => nullable string) fun d u => { u with discriminator := d }]

end Union

namespace EntityKind

def enumFormat : Format (List String) where
  title := "EnumDef"
  blank := []
  fields := [.required "values" (list fun _ => string) fun vs _ => vs]

def read : Nested EntityKind :=
  Case.read [
    .holding "Record" fun d => do return .record (← Record.format.read d),
    .holding "ParameterBag" fun d => do return .parameterBag (← ParameterBag.format.read d),
    .holding "Union" fun d => do return .union (← Union.format.read d),
    .holding "Enum" fun d => do return .enum (← enumFormat.read d)]

end EntityKind

namespace Entity

def format : Format Entity where
  title := "Entity"
  blank := ⟨"", .enum []⟩
  fields := [
    .required "name" (fun _ => string) fun s e => { e with name := s },
    .required "kind" EntityKind.read fun k e => { e with kind := k }]

def ofText (text : String) : Except Fault Entity :=
  Json.readAll (format.read Json.openLimit) text

def listOfText (text : String) : Except Fault (List Entity) :=
  Json.readAll (list format.read Json.openLimit) text

end Entity

namespace Member

def ofText (text : String) : Except Fault Member :=
  Json.readAll (format.read Json.openLimit) text

end Member

end ServiceSchema
