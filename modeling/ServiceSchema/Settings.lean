import ServiceSchema.Emit.Module
import ServiceSchema.Toml.Reader
/-!
# Settings

Settings for the output come from layers, the later ones over the earlier ones. Each field is
decided on its own by the last layer that sets it; a field that no layer sets has its standard
value.
-/

namespace ServiceSchema

structure Settings where
  backend : Option String
  isExported : Option Bool
  infersTypes : Option Bool
  suffix : Option String
  importPath : Option String
deriving DecidableEq, Repr

namespace Settings

def unset : Settings :=
  ⟨none, none, none, none, none⟩

/-- The settings of `upper`, and those of `lower` where `upper` has none. -/
def overlay (lower upper : Settings) : Settings :=
  ⟨upper.backend <|> lower.backend, upper.isExported <|> lower.isExported,
    upper.infersTypes <|> lower.infersTypes, upper.suffix <|> lower.suffix,
    upper.importPath <|> lower.importPath⟩

def standardBackend : String := "zod"

def effectiveBackend (s : Settings) : String :=
  s.backend.getD standardBackend

def emitOptions (s : Settings) : EmitOptions :=
  ⟨s.isExported.getD EmitOptions.standard.isExported,
    s.infersTypes.getD EmitOptions.standard.infersTypes,
    s.suffix.getD EmitOptions.standard.suffix,
    s.importPath.getD EmitOptions.standard.importPath⟩

open Toml (Value)

def string? : Value → Option String
  | .string s => some s
  | _ => none

def boolean? : Value → Option Bool
  | .boolean b => some b
  | _ => none

def field? {α : Type} (decode : Value → Option α) : Option Value → Option (Option α)
  | none => some none
  | some v => (decode v).map some

def ofLookup? (field : String → Nat → Option Value) : Option Settings := do
  return ⟨← field? string? (field "backend" 0), ← field? boolean? (field "export" 1),
    ← field? boolean? (field "infer_types" 2), ← field? string? (field "schema_suffix" 3),
    ← field? string? (field "import_path" 4)⟩

/-- Settings as a table by name, or as an array by position. A moment is taken for a table with
fields of its own, none of which is a setting. -/
def ofValue? : Value → Option Settings
  | .table entries => ofLookup? fun name _ => entries.lookup name
  | .array items => ofLookup? fun _ i => items[i]?
  | .moment _ => some unset
  | _ => none

/-- The settings of a document: its `output`. Anything else in the document is left alone. -/
def ofText? (text : String) : Option Settings := do
  match (← Toml.readDocument text).lookup "output" with
  | none => some unset
  | some v => ofValue? v

end Settings

/-!
## The schema of the settings

A JSON document that tells other tools where the settings are kept and which fields they have.
-/

namespace SettingsSchema

open Json (strings)

def projectPath : String := ".normalize/schemagen.toml"

def fields : List (String × String × String) := [
  ("backend", "string", "Backend name (zod, json)."),
  ("export", "boolean", "Prefix each definition with `export`."),
  ("infer_types", "boolean", "Emit an inferred type alias next to each schema."),
  ("schema_suffix", "string", "Suffix appended to schema identifiers."),
  ("import_path", "string", "Module the schema library is imported from.")]

def fieldSchema (type description : String) : Json :=
  .object [("default", .null), ("description", .string description),
    ("type", strings [type, "null"])]

def outputSchema : Json :=
  .object [
    ("description",
      .string "Output configuration. Unset fields fall back to the backend defaults."),
    ("properties", .object (fields.map fun (name, type, description) =>
      (name, fieldSchema type description))),
    ("type", .string "object")]

def rootSchema : Json :=
  .object [
    ("$defs", .object [("OutputConfig", outputSchema)]),
    ("$schema", .string "https://json-schema.org/draft/2020-12/schema"),
    ("description", .string "Root configuration structure."),
    ("properties", .object [("output", .object [
      ("$ref", .string "#/$defs/OutputConfig"),
      ("default", .object (fields.map fun f => (f.1, .null)))])]),
    ("title", .string "SchemagenConfig"),
    ("type", .string "object")]

def document : Json :=
  .object [("config_path", .string projectPath), ("format", .string "toml"),
    ("schema", rootSchema)]

def text : String :=
  String.ofList (document.sorted.pretty ++ ['\n'])

end SettingsSchema

end ServiceSchema
