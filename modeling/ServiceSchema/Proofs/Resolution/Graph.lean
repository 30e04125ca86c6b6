import Mathlib.Logic.Relation
import ServiceSchema.Proofs.Names.Sorting
import ServiceSchema.Resolution
/-!
# The dependency graph of a worklist

An edge leads from an entity to each entity of the worklist whose name is among its dependencies.
Names that no entity has give no edge; an entity with such a dependency dangles.
-/

namespace ServiceSchema.Entity

theorem mem_dependencies {e : Entity} {n : String} :
    n ∈ e.dependencies ↔ n ≠ e.name ∧ ∃ m ∈ e.members, m.type.name? = some n := by
  rw [dependencies, Names.mem_distinct, List.mem_filter, List.mem_filterMap, bne_iff_ne, and_comm]

theorem name_notMem_dependencies (e : Entity) : e.name ∉ e.dependencies := fun h =>
  (mem_dependencies.mp h).1 rfl

theorem isReady_iff {placed : List String} {e : Entity} :
    e.isReady placed = true ↔ ∀ n ∈ e.dependencies, n ∈ placed := by
  simp [isReady]

variable {es : List Entity} {e f g : Entity}

/-- Entities of a worklist are told apart by their names. -/
theorem eq_of_name_eq (hes : (es.map name).Nodup) (he : e ∈ es) (hf : f ∈ es)
    (h : e.name = f.name) : e = f :=
  List.inj_on_of_nodup_map hes he hf h

def DependsOn (es : List Entity) (e f : Entity) : Prop := f ∈ es ∧ f.name ∈ e.dependencies

/-- Some chain of dependency steps leads from an entity to another, possibly the empty one. -/
def Reaches (es : List Entity) : Entity → Entity → Prop := Relation.ReflTransGen (DependsOn es)

/-- An entity depends on a name that no entity of the worklist has. -/
def Dangles (es : List Entity) (e : Entity) : Prop := ∃ n ∈ e.dependencies, n ∉ es.map name

/-- An entity lies on a cycle of dependency steps through at least one other entity. -/
def OnCycle (es : List Entity) (e : Entity) : Prop := ∃ f, f ≠ e ∧ Reaches es e f ∧ Reaches es f e

theorem DependsOn.ne (h : DependsOn es e f) : e ≠ f := by
  rintro rfl
  exact name_notMem_dependencies e h.2

/-- A closed chain of steps passes through another entity, as no entity depends on itself. -/
theorem onCycle_of_transGen (h : Relation.TransGen (DependsOn es) e e) : OnCycle es e := by
  obtain ⟨f, hef, hfe⟩ := Relation.TransGen.head'_iff.mp h
  exact ⟨f, hef.ne.symm, .single hef, hfe⟩

theorem OnCycle.transGen (h : OnCycle es e) : Relation.TransGen (DependsOn es) e e := by
  obtain ⟨f, hne, hef, hfe⟩ := h
  rcases Relation.reflTransGen_iff_eq_or_transGen.mp hef with rfl | hstep
  · exact absurd rfl hne
  · exact hstep.trans_left hfe

theorem exists_of_not_dangles (h : ¬ Dangles es e) {n : String} (hn : n ∈ e.dependencies) :
    ∃ f ∈ es, f.name = n := by
  by_contra hnone
  exact h ⟨n, hn, fun hmem => hnone (List.mem_map.mp hmem)⟩

end ServiceSchema.Entity
