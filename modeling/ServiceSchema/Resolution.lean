import ServiceSchema.Model.Entity
/-!
# Resolution

Entities are placed layer by layer. Each pass takes the pending entities whose dependencies are all
placed, in the order of their names. A pass that finds none ends the resolution, and what is still
pending is stalled: it depends on a cycle or on a name that no entity has.
-/

namespace ServiceSchema

namespace Entity

def isReady (placed : List String) (e : Entity) : Bool :=
  e.dependencies.all placed.contains

def sortByName (es : List Entity) : List Entity :=
  Names.sortBy name es

end Entity

/-- The outcome of placing entities: the layers in order, what stalled, and the number of passes. -/
structure Placement where
  layers : List (List Entity)
  stalled : List Entity
  passes : Nat

namespace Placement

def layer (placed : List String) (pending : List Entity) : List Entity :=
  Entity.sortByName (pending.filter (·.isReady placed))

def waiting (placed : List String) (pending : List Entity) : List Entity :=
  pending.filter fun e => !e.isReady placed

theorem length_waiting_lt {placed : List String} {pending : List Entity}
    (h : pending.any (·.isReady placed) = true) :
    (waiting placed pending).length < pending.length := by
  obtain ⟨e, he, hr⟩ := List.any_eq_true.mp h
  exact List.length_filter_lt_length_iff_exists.mpr ⟨e, he, by simp [hr]⟩

/-- Places pending entities after the entities with the names in `placed`. -/
def settle (placed : List String) (pending : List Entity) : Placement :=
  if pending.isEmpty then ⟨[], [], 0⟩
  else if _ : pending.any (·.isReady placed) then
    let later := settle (placed ++ (layer placed pending).map Entity.name)
      (waiting placed pending)
    ⟨layer placed pending :: later.layers, later.stalled, later.passes + 1⟩
  else ⟨[], pending, 1⟩
termination_by pending.length
decreasing_by exact length_waiting_lt ‹_›

end Placement

/-- A worklist in the order of emission. -/
structure Resolution where
  /-- Each of these follows the entities that it depends on. -/
  ordered : List Entity
  /-- The stalled entities in the order of their names. -/
  circular : List Entity

namespace Resolution

def ofWorklist (es : List Entity) : Resolution :=
  let p := Placement.settle [] es
  ⟨p.layers.flatten, Entity.sortByName p.stalled⟩

def isAcyclic (r : Resolution) : Bool :=
  r.circular.isEmpty

/-- The names of the circular group, distinct and increasing. -/
def circularNames (r : Resolution) : List String :=
  Names.distinct (r.circular.map Entity.name)

def entities (r : Resolution) : List Entity :=
  r.ordered ++ r.circular

end Resolution

/-!
## Diagnostics

What a resolution has to report: its circular group, and the entities that refer to names that no
entity has.
-/

structure Diagnostic where
  message : String
  /-- The entities that the diagnostic is about. -/
  names : List String
deriving DecidableEq, Repr

namespace Resolution

/-- The names that an entity refers to and that no entity of the resolution has. -/
def unknownNames (r : Resolution) (e : Entity) : List String :=
  e.dependencies.filter fun n => !(r.entities.map Entity.name).contains n

def circularDiagnostic (r : Resolution) : Diagnostic :=
  let names := r.circular.map Entity.name
  ⟨"circular references between " ++ String.intercalate ", " names ++ "; using lazy references",
    names⟩

def unknownDiagnostic? (r : Resolution) (e : Entity) : Option Diagnostic :=
  let unknown := r.unknownNames e
  if unknown.isEmpty then none
  else
    some ⟨e.name ++ " references unknown " ++ String.intercalate ", " unknown, [e.name]⟩

def diagnostics (r : Resolution) : List Diagnostic :=
  if r.circular.isEmpty then []
  else r.circularDiagnostic :: r.circular.filterMap r.unknownDiagnostic?

end Resolution

end ServiceSchema
