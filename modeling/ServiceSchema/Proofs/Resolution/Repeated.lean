import ServiceSchema.Proofs.Resolution.Passes
/-!
# Resolving again

The outcome of a resolution is a worklist as well.  An entity is placed because of others that are
placed, so the pass that places it stays the same when stalled entities are left out or the order
changes, whether names are distinct or not.  The ordered part lists the layers one after the other,
each of them sorted: picking a layer out of it gives the layer as it was, and sorting leaves that
alone, with entities of equal names in their order.
-/

namespace ServiceSchema.Placement

open Entity

variable {es fs rest : List Entity} {e : Entity} {i j k : Nat}

/-- Pass `k` places an entity that the passes before it do not place. -/
def placedAt (es : List Entity) (k : Nat) (e : Entity) : Bool :=
  placedWithin es (k + 1) e && !placedWithin es k e

theorem layerAt_eq (es : List Entity) (k : Nat) :
    layerAt es k = sortByName (es.filter (placedAt es k)) := rfl

theorem placedAt_iff : placedAt es k e = true ↔
    placedWithin es (k + 1) e = true ∧ placedWithin es k e = false := by
  rw [placedAt, Bool.and_eq_true, Bool.not_eq_true']

theorem placedAt_of_mem_layerAt (h : e ∈ layerAt es k) : placedAt es k e = true :=
  placedAt_iff.mpr (mem_layerAt.mp h).2

theorem placedAt_eq_false_of_lt (hij : i < j) (h : placedAt es i e = true) :
    placedAt es j e = false := by
  rw [placedAt, placedWithin_mono hij (placedAt_iff.mp h).1, Bool.not_true, Bool.and_false]

/-- An entity is placed by one pass only. -/
theorem placedAt_eq_decide (h : placedAt es i e = true) (j : Nat) :
    placedAt es j e = decide (i = j) := by
  rcases lt_trichotomy i j with hlt | rfl | hgt
  · rw [placedAt_eq_false_of_lt hlt h, decide_eq_false hlt.ne]
  · rw [h, decide_eq_true rfl]
  · rw [decide_eq_false hgt.ne', ← Bool.not_eq_true]
    intro hearlier
    rw [placedAt_eq_false_of_lt hgt hearlier] at h
    exact Bool.false_ne_true h

/-! ## Layers -/

theorem sortByName_layerAt (es : List Entity) (k : Nat) :
    sortByName (layerAt es k) = layerAt es k :=
  Names.sortBy_of_pairwise name (Names.pairwise_sortBy name _)

theorem filter_placedAt_layerAt (es : List Entity) (i k : Nat) :
    (layerAt es i).filter (placedAt es k) = if i = k then layerAt es k else [] := by
  split
  · next heq =>
      rw [heq, List.filter_eq_self]
      exact fun e he => placedAt_of_mem_layerAt he
  · next hne =>
      rw [List.filter_eq_nil_iff]
      intro e he
      rw [placedAt_eq_decide (placedAt_of_mem_layerAt he), decide_eq_true_eq]
      exact hne

theorem lt_layerCount_iff : k < layerCount es ↔ layerAt es k ≠ [] := by
  constructor
  · intro h
    apply (fromPass_zero es).layers_ne_nil
    rw [layers_eq]
    exact List.mem_map_of_mem (List.mem_range.mpr h)
  · intro h
    obtain ⟨e, he⟩ := List.exists_mem_of_ne_nil _ h
    exact lt_layerCount he

/-- The number of layers is that of the layers that are not empty. -/
theorem layerCount_eq_of_layerAt (h : layerAt fs = layerAt es) : layerCount fs = layerCount es := by
  apply eq_of_forall_lt_iff
  intro k
  rw [lt_layerCount_iff, h, lt_layerCount_iff]

theorem flatten_map_ite {α : Type} (n k : Nat) (as : List α) :
    ((List.range n).map fun i => if i = k then as else []).flatten = if k < n then as else [] := by
  induction n with
  | zero => rfl
  | succ n ih =>
      rw [List.range_succ, List.map_append, List.flatten_append, ih]
      rcases lt_trichotomy k n with hlt | rfl | hgt
      · simp [hlt, hlt.ne', Nat.lt_succ_of_lt hlt]
      · simp
      · simp [hgt.not_gt, hgt.ne, Nat.not_lt.mpr (Nat.succ_le_of_lt hgt)]

/-- The entities of a layer stand in the ordered part as they stand in the layer. -/
theorem filter_placedAt_ordered (es : List Entity) (k : Nat) :
    (Resolution.ofWorklist es).ordered.filter (placedAt es k) = layerAt es k := by
  have hlayers : ((List.range (layerCount es)).map (layerAt es)).map (List.filter (placedAt es k)) =
      (List.range (layerCount es)).map fun i => if i = k then layerAt es k else [] := by
    rw [List.map_map]
    exact List.map_congr_left fun i _ => filter_placedAt_layerAt es i k
  rw [Resolution.ordered_eq, List.filter_flatten, hlayers, flatten_map_ite]
  split
  · rfl
  · next hlast => exact (not_not.mp (mt lt_layerCount_iff.mpr hlast)).symm

/-! ## Worklists that keep what is placed -/

/-- Only the entities that some pass places matter for when an entity is placed. -/
theorem placedWithin_eq_of_placeable (hsub : fs ⊆ es) (hkeep : ∀ f ∈ es, Placeable es f → f ∈ fs)
    (k : Nat) (e : Entity) : placedWithin fs k e = placedWithin es k e := by
  induction k generalizing e with
  | zero => rfl
  | succ k ih =>
      rw [Bool.eq_iff_iff, placedWithin_succ_iff, placedWithin_succ_iff]
      simp only [ih]
      constructor
      · intro h n hn
        obtain ⟨f, hf, hplaced, hname⟩ := h n hn
        exact ⟨f, hsub hf, hplaced, hname⟩
      · intro h n hn
        obtain ⟨f, hf, hplaced, hname⟩ := h n hn
        exact ⟨f, hkeep f hf ⟨k, hplaced⟩, hplaced, hname⟩

theorem placedWithin_ordered_append (hrest : rest ⊆ (Resolution.ofWorklist es).circular) :
    placedWithin ((Resolution.ofWorklist es).ordered ++ rest) = placedWithin es := by
  funext k e
  apply placedWithin_eq_of_placeable
  · intro f hf
    rcases List.mem_append.mp hf with hf | hf
    · exact (Resolution.mem_ordered_iff_placeable.mp hf).1
    · exact (Resolution.mem_circular_iff_not_placeable.mp (hrest hf)).1
  · intro f hf hplaceable
    exact List.mem_append_left _ (Resolution.mem_ordered_iff_placeable.mpr ⟨hf, hplaceable⟩)

theorem placedWithin_eq_false_of_mem_circular (h : e ∈ (Resolution.ofWorklist es).circular)
    (k : Nat) : placedWithin es k e = false := by
  rw [← Bool.not_eq_true]
  exact fun hplaced => (Resolution.mem_circular_iff_not_placeable.mp h).2 ⟨k, hplaced⟩

theorem placedWithin_layerCount_of_mem_ordered (h : e ∈ (Resolution.ofWorklist es).ordered) :
    placedWithin es (layerCount es) e = true := by
  obtain ⟨he, hplaceable⟩ := Resolution.mem_ordered_iff_placeable.mp h
  exact (placeable_iff_placedWithin he).mp hplaceable

theorem layerAt_ordered_append (hrest : rest ⊆ (Resolution.ofWorklist es).circular) :
    layerAt ((Resolution.ofWorklist es).ordered ++ rest) = layerAt es := by
  funext k
  -- The layer is picked out of the ordered part, as nothing in the rest is ever placed.
  have hnone : rest.filter (placedAt es k) = [] := by
    rw [List.filter_eq_nil_iff]
    intro e he
    rw [placedAt, placedWithin_eq_false_of_mem_circular (hrest he), Bool.false_and]
    exact Bool.false_ne_true
  have hsame : placedAt ((Resolution.ofWorklist es).ordered ++ rest) k = placedAt es k := by
    funext e
    rw [placedAt, placedWithin_ordered_append hrest, placedAt]
  rw [layerAt_eq, hsame, List.filter_append, filter_placedAt_ordered, hnone, List.append_nil,
    sortByName_layerAt]

end ServiceSchema.Placement

namespace ServiceSchema.Resolution

open Placement Entity

variable {es rest : List Entity}

theorem sortByName_circular (es : List Entity) :
    sortByName (ofWorklist es).circular = (ofWorklist es).circular :=
  Names.sortBy_of_pairwise name (Names.pairwise_sortBy name _)

/-- Without some of the stalled entities the same entities are ordered, in the same order. -/
theorem ofWorklist_ordered_append (hrest : rest ⊆ (ofWorklist es).circular) :
    ofWorklist ((ofWorklist es).ordered ++ rest) = ⟨(ofWorklist es).ordered, sortByName rest⟩ := by
  have hlayers := layerAt_ordered_append hrest
  have hcount := layerCount_eq_of_layerAt hlayers
  have hordered : (ofWorklist ((ofWorklist es).ordered ++ rest)).ordered =
      (ofWorklist es).ordered := by
    rw [ordered_eq, hlayers, hcount, ← ordered_eq]
  have hnone : (ofWorklist es).ordered.filter
      (fun e => !placedWithin es (layerCount es) e) = [] := by
    rw [List.filter_eq_nil_iff]
    intro e he
    rw [placedWithin_layerCount_of_mem_ordered he]
    exact Bool.false_ne_true
  have hall : rest.filter (fun e => !placedWithin es (layerCount es) e) = rest := by
    rw [List.filter_eq_self]
    intro e he
    rw [placedWithin_eq_false_of_mem_circular (hrest he), Bool.not_false]
  have hcircular : (ofWorklist ((ofWorklist es).ordered ++ rest)).circular = sortByName rest := by
    rw [circular_eq, placedWithin_ordered_append hrest, hcount, List.filter_append, hnone, hall,
      List.nil_append]
  exact congrArg₂ Resolution.mk hordered hcircular

/-- What stalls in a worklist stalls on its own: nothing that it waits for is left. -/
theorem ofWorklist_circular (es : List Entity) :
    ofWorklist (ofWorklist es).circular = ⟨[], (ofWorklist es).circular⟩ := by
  have hsub : (ofWorklist es).circular ⊆ es := fun e he =>
    (mem_circular_iff_not_placeable.mp he).1
  have hnever : ∀ e ∈ (ofWorklist es).circular, ∀ k,
      placedWithin (ofWorklist es).circular k e = false := by
    intro e he k
    rw [← Bool.not_eq_true]
    intro hplaced
    have hstalled := placedWithin_eq_false_of_mem_circular he k
    rw [placedWithin_of_subset hsub hplaced] at hstalled
    exact Bool.false_ne_true hstalled.symm
  have hordered : (ofWorklist (ofWorklist es).circular).ordered = [] := by
    rw [List.eq_nil_iff_forall_not_mem]
    intro e he
    obtain ⟨he, k, hplaced⟩ := mem_ordered_iff_placeable.mp he
    rw [hnever e he k] at hplaced
    exact Bool.false_ne_true hplaced
  have hcircular : (ofWorklist (ofWorklist es).circular).circular = (ofWorklist es).circular := by
    have hall : (ofWorklist es).circular.filter (fun e => !placedWithin (ofWorklist es).circular
        (layerCount (ofWorklist es).circular) e) = (ofWorklist es).circular := by
      rw [List.filter_eq_self]
      intro e he
      rw [hnever e he, Bool.not_false]
    rw [circular_eq, hall, sortByName_circular]
  exact congrArg₂ Resolution.mk hordered hcircular

/-- Resolving what has been resolved changes nothing, neither for the whole nor for one of the two
parts.  The lists are the same, so entities of equal names stand in the same order as well. -/
theorem ofWorklist_resolved (es : List Entity) :
    ofWorklist ((ofWorklist es).ordered ++ (ofWorklist es).circular) = ofWorklist es ∧
      ofWorklist (ofWorklist es).ordered = ⟨(ofWorklist es).ordered, []⟩ ∧
      ofWorklist (ofWorklist es).circular = ⟨[], (ofWorklist es).circular⟩ := by
  refine ⟨?_, ?_, ofWorklist_circular es⟩
  · rw [ofWorklist_ordered_append (List.Subset.refl _), sortByName_circular]
  · have hordered := ofWorklist_ordered_append (List.nil_subset (ofWorklist es).circular)
    rwa [List.append_nil] at hordered

end ServiceSchema.Resolution
