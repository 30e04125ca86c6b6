import ServiceSchema.Emit.Module
import ServiceSchema.Schema.Written
/-!
# Backends and their registry

A backend writes schemas in one syntax. The registry holds backends in the order in which they were
registered; the built-in ones are added by the first call, whichever it is, and so always come
first.
-/

namespace ServiceSchema

/-!
## Dumps

Schemas written as one JSON document, for other writers to read.
-/

def Definition.toJson (d : Definition) : Json :=
  .object [("name", .string d.name), ("schema", d.schema.toJson)]

namespace Emit

def document (s : Synthesis) (o : EmitOptions) : Json :=
  .object [("schema_suffix", .string o.suffix),
    ("definitions", .array (s.definitions.map Definition.toJson)),
    ("circular", .array (s.circular.map Definition.toJson))]

def dumpText (s : Synthesis) (o : EmitOptions) : List Char :=
  (document s o).pretty ++ ['\n']

end Emit

/-! ## Backends -/

structure Backend where
  name : String
  /-- The file extension of what the backend writes. -/
  extension : String
  render : Synthesis → EmitOptions → String

namespace Backend

def module : Backend :=
  ⟨"zod", "ts", fun s o => String.ofList (Emit.moduleText s o)⟩

def dump : Backend :=
  ⟨"json", "json", fun s o => String.ofList (Emit.dumpText s o)⟩

def builtIn : List Backend :=
  [module, dump]

end Backend

/-- The registered backends; there is no list before the first call. -/
structure Registry where
  listed? : Option (List Backend)

namespace Registry

def unopened : Registry :=
  ⟨none⟩

def backends (r : Registry) : List Backend :=
  r.listed?.getD Backend.builtIn

abbrev Call (α : Type) := StateM Registry α

/-- Adds the built-in backends unless that has been done, and gives the list. -/
def all : Call (List Backend) :=
  fun r => (r.backends, ⟨some r.backends⟩)

def register (b : Backend) : Call Unit :=
  fun r => ((), ⟨some (r.backends ++ [b])⟩)

def names : Call (List String) := do
  return (← all).map Backend.name

/-- The first backend with a name. -/
def find? (name : String) : Call (Option Backend) := do
  return (← all).find? (·.name == name)

end Registry

end ServiceSchema
