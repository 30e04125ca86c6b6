import Mathlib.Algebra.BigOperators.Group.List.Basic
import ServiceSchema.Proofs.Resolution.Graph
/-!
# The passes over a worklist

Which pass places an entity does not depend on the order of the worklist, but only on which entities
it holds.  `placedWithin` says so without the loop, and `settle_fromPass` shows that the loop places
exactly these: its layers are the differences of successive passes, each of them non-empty, and what
stalls is what no pass places.
-/

namespace ServiceSchema.Placement

/-- Whether the first `k` passes over a worklist place an entity. -/
def placedWithin (es : List Entity) : Nat → Entity → Bool
  | 0, _ => false
  | k + 1, e => e.isReady ((es.filter (placedWithin es k)).map Entity.name)

/-- What pass `k` adds to the passes before it, in the order of the names. -/
def layerAt (es : List Entity) (k : Nat) : List Entity :=
  Entity.sortByName (es.filter fun e => placedWithin es (k + 1) e && !placedWithin es k e)

/-- Some pass places an entity. -/
def Placeable (es : List Entity) (e : Entity) : Prop := ∃ k, placedWithin es k e = true

variable {es : List Entity} {e f : Entity} {j k : Nat} {placed : List String}
  {pending : List Entity}

theorem placedWithin_succ_iff :
    placedWithin es (k + 1) e = true ↔
      ∀ n ∈ e.dependencies, ∃ f ∈ es, placedWithin es k f = true ∧ f.name = n := by
  simp only [placedWithin, Entity.isReady_iff, List.mem_map, List.mem_filter, and_assoc]

theorem placedWithin_succ (h : placedWithin es k e = true) : placedWithin es (k + 1) e = true := by
  induction k generalizing e with
  | zero => exact absurd h Bool.false_ne_true
  | succ k ih =>
      rw [placedWithin_succ_iff] at h ⊢
      intro n hn
      obtain ⟨f, hf, hplaced, hname⟩ := h n hn
      exact ⟨f, hf, ih hplaced, hname⟩

theorem placedWithin_mono (hjk : j ≤ k) (h : placedWithin es j e = true) :
    placedWithin es k e = true := by
  induction hjk with
  | refl => exact h
  | step _ ih => exact placedWithin_succ ih

theorem placedWithin_of_subset {fs : List Entity} (hsub : es ⊆ fs)
    (h : placedWithin es k e = true) : placedWithin fs k e = true := by
  induction k generalizing e with
  | zero => exact absurd h Bool.false_ne_true
  | succ k ih =>
      rw [placedWithin_succ_iff] at h ⊢
      intro n hn
      obtain ⟨f, hf, hplaced, hname⟩ := h n hn
      exact ⟨f, hsub hf, ih hplaced, hname⟩

theorem mem_layerAt :
    e ∈ layerAt es k ↔
      e ∈ es ∧ placedWithin es (k + 1) e = true ∧ placedWithin es k e = false := by
  simp [layerAt, Entity.sortByName]

/-! ## The loop -/

/-- The state of the loop before pass `k`. -/
structure AtPass (es : List Entity) (k : Nat) (placed : List String) (pending : List Entity) :
    Prop where
  mem_placed : ∀ n, n ∈ placed ↔ ∃ e ∈ es, placedWithin es k e = true ∧ e.name = n
  pending_eq : pending = es.filter fun e => !placedWithin es k e

/-- What the loop leaves when it starts before pass `k`. -/
structure FromPass (es : List Entity) (k : Nat) (p : Placement) : Prop where
  layers_eq : p.layers = (List.range' k p.layers.length).map (layerAt es)
  layers_ne_nil : ∀ l ∈ p.layers, l ≠ []
  stalled_eq : p.stalled = es.filter fun e => !placedWithin es (k + p.layers.length) e
  saturated : ∀ e ∈ es, placedWithin es (k + p.layers.length + 1) e = true →
    placedWithin es (k + p.layers.length) e = true
  passes_eq : p.passes = p.layers.length + if p.stalled.isEmpty then 0 else 1

theorem atPass_zero (es : List Entity) : AtPass es 0 [] es where
  mem_placed := by simp [placedWithin]
  pending_eq := by simp [placedWithin]

theorem AtPass.isReady_eq (h : AtPass es k placed pending) (e : Entity) :
    e.isReady placed = placedWithin es (k + 1) e := by
  rw [Bool.eq_iff_iff, Entity.isReady_iff, placedWithin_succ_iff]
  simp only [h.mem_placed]

theorem AtPass.layer_eq (h : AtPass es k placed pending) :
    layer placed pending = layerAt es k := by
  simp only [layer, layerAt, h.isReady_eq, h.pending_eq, List.filter_filter]

theorem AtPass.next (h : AtPass es k placed pending) :
    AtPass es (k + 1) (placed ++ (layer placed pending).map Entity.name)
      (waiting placed pending) where
  mem_placed n := by
    rw [List.mem_append, h.mem_placed, h.layer_eq, List.mem_map]
    constructor
    · rintro (⟨e, he, hplaced, hname⟩ | ⟨e, he, hname⟩)
      · exact ⟨e, he, placedWithin_succ hplaced, hname⟩
      · rw [mem_layerAt] at he
        exact ⟨e, he.1, he.2.1, hname⟩
    · rintro ⟨e, he, hplaced, hname⟩
      cases hbefore : placedWithin es k e with
      | true => exact Or.inl ⟨e, he, hbefore, hname⟩
      | false => exact Or.inr ⟨e, mem_layerAt.mpr ⟨he, hplaced, hbefore⟩, hname⟩
  pending_eq := by
    simp only [waiting, h.isReady_eq, h.pending_eq, List.filter_filter]
    apply List.filter_congr
    intro e _
    -- Whatever the next pass does not place, this one did not place either.
    cases hnext : placedWithin es (k + 1) e with
    | true => rfl
    | false =>
        have hbefore : placedWithin es k e = false := by
          rw [← Bool.not_eq_true]
          intro hplaced
          exact absurd (placedWithin_succ hplaced) (by rw [hnext]; exact Bool.false_ne_true)
        rw [hbefore]
        rfl

theorem settle_fromPass (placed : List String) (pending : List Entity) :
    ∀ k, AtPass es k placed pending → FromPass es k (settle placed pending) := by
  fun_induction settle placed pending with
  | case1 placed pending hempty =>
      intro k h
      have hnil : es.filter (fun e => !placedWithin es k e) = [] := by
        rw [← h.pending_eq]
        exact List.isEmpty_iff.mp hempty
      refine ⟨rfl, by simp, hnil.symm, ?_, rfl⟩
      intro e he _
      simpa using List.filter_eq_nil_iff.mp hnil e he
  | case2 placed pending hsome hready later ih =>
      intro k h
      have hlater : FromPass es (k + 1) later := ih (k + 1) h.next
      have hlen : k + (later.layers.length + 1) = k + 1 + later.layers.length := by omega
      refine ⟨?_, ?_, ?_, ?_, ?_⟩
      · rw [List.length_cons, List.range'_succ, List.map_cons, ← h.layer_eq, ← hlater.layers_eq]
      · intro l hl
        rcases List.mem_cons.mp hl with rfl | hl
        · obtain ⟨e, he, hr⟩ := List.any_eq_true.mp hready
          exact List.ne_nil_of_mem (a := e) (by simp [layer, Entity.sortByName, he, hr])
        · exact hlater.layers_ne_nil l hl
      · rw [List.length_cons, hlen]
        exact hlater.stalled_eq
      · rw [List.length_cons, hlen]
        exact hlater.saturated
      · change later.passes + 1 = later.layers.length + 1 + _
        rw [hlater.passes_eq, Nat.add_right_comm]
  | case3 placed pending hsome hnone =>
      intro k h
      refine ⟨rfl, by simp, h.pending_eq, ?_, by simp [hsome]⟩
      intro e he hnext
      by_contra hbefore
      have hmem : e ∈ pending := by
        rw [h.pending_eq]
        exact List.mem_filter.mpr ⟨he, by simpa using hbefore⟩
      exact hnone (List.any_eq_true.mpr ⟨e, hmem, by rw [h.isReady_eq]; exact hnext⟩)

theorem settle_perm (placed : List String) (pending : List Entity) :
    ((settle placed pending).layers.flatten ++ (settle placed pending).stalled).Perm pending := by
  fun_induction settle placed pending with
  | case1 placed pending hempty => simp [List.isEmpty_iff.mp hempty]
  | case2 placed pending hsome hready later ih =>
      have hlayer : (layer placed pending).Perm (pending.filter (·.isReady placed)) :=
        Names.sortBy_perm _ _
      rw [List.flatten_cons, List.append_assoc]
      exact (hlayer.append ih).trans (List.filter_append_perm _ pending)
  | case3 placed pending hsome hnone => simp

/-- The number of passes over a worklist that place an entity. -/
def layerCount (es : List Entity) : Nat := (settle [] es).layers.length

theorem fromPass_zero (es : List Entity) : FromPass es 0 (settle [] es) :=
  settle_fromPass [] es 0 (atPass_zero es)

theorem layers_eq (es : List Entity) :
    (settle [] es).layers = (List.range (layerCount es)).map (layerAt es) := by
  rw [List.range_eq_range']
  exact (fromPass_zero es).layers_eq

theorem stalled_eq (es : List Entity) :
    (settle [] es).stalled = es.filter fun e => !placedWithin es (layerCount es) e := by
  have h := (fromPass_zero es).stalled_eq
  rwa [Nat.zero_add] at h

theorem layerCount_le_length (es : List Entity) : layerCount es ≤ es.length := by
  have hflat : (settle [] es).layers.flatten.length ≤ es.length := by
    rw [← (settle_perm [] es).length_eq, List.length_append]
    exact Nat.le_add_right _ _
  rw [List.length_flatten] at hflat
  refine le_trans ?_ hflat
  rw [layerCount, ← List.length_map (f := List.length)]
  apply List.length_le_sum_of_one_le
  intro i hi
  obtain ⟨l, hl, rfl⟩ := List.mem_map.mp hi
  exact List.length_pos_iff.mpr ((fromPass_zero es).layers_ne_nil l hl)

/-- After the last layer nothing further becomes ready. -/
theorem placedWithin_layerCount (he : e ∈ es) (h : placedWithin es k e = true) :
    placedWithin es (layerCount es) e = true := by
  have hsaturated : ∀ e ∈ es, placedWithin es (layerCount es + 1) e = true →
      placedWithin es (layerCount es) e = true := by
    have h := (fromPass_zero es).saturated
    rwa [Nat.zero_add] at h
  induction k generalizing e with
  | zero => exact absurd h Bool.false_ne_true
  | succ k ih =>
      apply hsaturated e he
      rw [placedWithin_succ_iff] at h ⊢
      intro n hn
      obtain ⟨f, hf, hplaced, hname⟩ := h n hn
      exact ⟨f, hf, ih hf hplaced, hname⟩

theorem placeable_iff_placedWithin (he : e ∈ es) :
    Placeable es e ↔ placedWithin es (layerCount es) e = true :=
  ⟨fun ⟨_, h⟩ => placedWithin_layerCount he h, fun h => ⟨_, h⟩⟩

/-- An entity can be placed when all its dependencies can. -/
theorem placeable_iff :
    Placeable es e ↔ ∀ n ∈ e.dependencies, ∃ f ∈ es, Placeable es f ∧ f.name = n := by
  constructor
  · rintro ⟨k, hk⟩ n hn
    obtain ⟨f, hf, hplaced, hname⟩ := placedWithin_succ_iff.mp (placedWithin_succ hk) n hn
    exact ⟨f, hf, ⟨k, hplaced⟩, hname⟩
  · intro h
    refine ⟨layerCount es + 1, placedWithin_succ_iff.mpr ?_⟩
    intro n hn
    obtain ⟨f, hf, hplaceable, hname⟩ := h n hn
    exact ⟨f, hf, (placeable_iff_placedWithin hf).mp hplaceable, hname⟩

theorem lt_layerCount (h : e ∈ layerAt es k) : k < layerCount es := by
  obtain ⟨he, hplaced, hbefore⟩ := mem_layerAt.mp h
  by_contra hle
  have hlater := placedWithin_mono (Nat.le_of_not_lt hle) (placedWithin_layerCount he hplaced)
  rw [hbefore] at hlater
  exact Bool.false_ne_true hlater

theorem exists_mem_layerAt (he : e ∈ es) (h : placedWithin es k e = true) :
    ∃ j < k, e ∈ layerAt es j := by
  induction k with
  | zero => exact absurd h Bool.false_ne_true
  | succ k ih =>
      cases hbefore : placedWithin es k e with
      | true =>
          obtain ⟨j, hj, hmem⟩ := ih hbefore
          exact ⟨j, Nat.lt_succ_of_lt hj, hmem⟩
      | false => exact ⟨k, Nat.lt_succ_self k, mem_layerAt.mpr ⟨he, h, hbefore⟩⟩

end ServiceSchema.Placement

/-! ## The resolution -/

namespace ServiceSchema.Resolution

open Placement

variable {es : List Entity} {e : Entity}

theorem ordered_eq (es : List Entity) :
    (ofWorklist es).ordered = ((List.range (layerCount es)).map (layerAt es)).flatten := by
  rw [← layers_eq]
  rfl

theorem circular_eq (es : List Entity) : (ofWorklist es).circular =
    Entity.sortByName (es.filter fun e => !placedWithin es (layerCount es) e) := by
  rw [← stalled_eq]
  rfl

theorem mem_ordered_iff_layer :
    e ∈ (ofWorklist es).ordered ↔ ∃ k < layerCount es, e ∈ layerAt es k := by
  simp only [ordered_eq, List.mem_flatten, List.mem_map, List.mem_range, exists_exists_and_eq_and]

theorem mem_ordered_iff_placeable :
    e ∈ (ofWorklist es).ordered ↔ e ∈ es ∧ Placeable es e := by
  rw [mem_ordered_iff_layer]
  constructor
  · rintro ⟨k, -, h⟩
    rw [mem_layerAt] at h
    exact ⟨h.1, k + 1, h.2.1⟩
  · rintro ⟨he, h⟩
    exact exists_mem_layerAt he ((placeable_iff_placedWithin he).mp h)

theorem mem_circular_iff_not_placeable :
    e ∈ (ofWorklist es).circular ↔ e ∈ es ∧ ¬ Placeable es e := by
  rw [circular_eq, Entity.sortByName, Names.mem_sortBy, List.mem_filter]
  apply and_congr_right
  intro he
  rw [placeable_iff_placedWithin he, Bool.not_eq_true, Bool.not_eq_true']

/-- Whatever an ordered entity depends on is ordered too. -/
theorem exists_mem_ordered_of_mem_dependencies (he : e ∈ (ofWorklist es).ordered) {n : String}
    (hn : n ∈ e.dependencies) : ∃ f ∈ (ofWorklist es).ordered, f.name = n := by
  obtain ⟨f, hf, hplaceable, hname⟩ :=
    placeable_iff.mp (mem_ordered_iff_placeable.mp he).2 n hn
  exact ⟨f, mem_ordered_iff_placeable.mpr ⟨hf, hplaceable⟩, hname⟩

theorem mem_circularNames_iff {r : Resolution} {n : String} :
    n ∈ r.circularNames ↔ ∃ e ∈ r.circular, e.name = n := by
  rw [circularNames, Names.mem_distinct, List.mem_map]

/-- With distinct names, no name belongs to both parts. -/
theorem name_notMem_circularNames (hes : (es.map Entity.name).Nodup)
    (he : e ∈ (ofWorklist es).ordered) : e.name ∉ (ofWorklist es).circularNames := by
  intro hmem
  obtain ⟨f, hf, hname⟩ := mem_circularNames_iff.mp hmem
  obtain ⟨he, hplaceable⟩ := mem_ordered_iff_placeable.mp he
  obtain ⟨hf, hnot⟩ := mem_circular_iff_not_placeable.mp hf
  rw [Entity.eq_of_name_eq hes hf he hname] at hnot
  exact hnot hplaceable

theorem entities_perm (es : List Entity) : (ofWorklist es).entities.Perm es :=
  ((Names.sortBy_perm Entity.name _).append_left _).trans (settle_perm [] es)

theorem nodup_map_name_entities (hes : (es.map Entity.name).Nodup) :
    ((ofWorklist es).entities.map Entity.name).Nodup :=
  ((entities_perm es).map Entity.name).nodup_iff.mpr hes

end ServiceSchema.Resolution
