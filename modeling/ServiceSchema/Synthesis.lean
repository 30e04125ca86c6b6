import ServiceSchema.Resolution
import ServiceSchema.Model.Service
import ServiceSchema.Schema.Entity
/-!
# Synthesis

The schemas of a whole service in the order of emission: first those that only refer to earlier
ones, then the circular group.
-/

namespace ServiceSchema

structure Definition where
  name : String
  schema : Schema

structure Synthesis where
  definitions : List Definition
  circular : List Definition

namespace Synthesis

def all (s : Synthesis) : List Definition :=
  s.definitions ++ s.circular

/-- The schema of the first definition with a name. -/
def get? (s : Synthesis) (name : String) : Option Schema :=
  (s.all.find? (·.name == name)).map Definition.schema

end Synthesis

def Entity.definition (circular : List String) (e : Entity) : Definition :=
  ⟨e.name, e.schema circular⟩

namespace Resolution

def synthesis (r : Resolution) : Synthesis :=
  ⟨r.ordered.map (Entity.definition r.circularNames),
    r.circular.map (Entity.definition r.circularNames)⟩

end Resolution

inductive GenerationError where
  | duplicateName (name : String)
deriving DecidableEq, Repr

namespace GenerationError

def message : GenerationError → String
  | duplicateName name => "duplicate entity name: " ++ name

end GenerationError

namespace ServiceModel

/-- The resolved worklist of a description, unless two of its entities have one name. -/
def resolve (m : ServiceModel) (naming : Naming) : Except GenerationError Resolution :=
  let es := m.entities naming
  match Names.firstRepeated [] (es.map Entity.name) with
  | some name => .error (.duplicateName name)
  | none => .ok (.ofWorklist es)

def generate (m : ServiceModel) (naming : Naming) : Except GenerationError Synthesis :=
  (m.resolve naming).map Resolution.synthesis

end ServiceModel

end ServiceSchema
