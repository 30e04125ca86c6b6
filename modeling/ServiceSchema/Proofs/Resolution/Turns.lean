import ServiceSchema.Proofs.Resolution.Passes
/-!
# The turns of the loop

The loop over a worklist, one turn after the other.  Each turn counts as a pass.  It places the
pending entities that are ready, or stops the loop when there are none.  A turn that places a layer
takes at least one entity off the pending ones, and the turn that stops the loop leaves at least one
pending, so there are no more turns than entities.
-/

namespace ServiceSchema.Placement

structure Progress where
  placed : List String
  layers : List (List Entity)
  pending : List Entity
  passes : Nat
  /-- The last turn found nothing to place. -/
  stopped : Bool

namespace Progress

variable {es : List Entity} {s t u : Progress} {m n : Nat}

def start (es : List Entity) : Progress :=
  ⟨[], [], es, 0, false⟩

def next? (s : Progress) : Option Progress :=
  if s.stopped || s.pending.isEmpty then none
  else if (layer s.placed s.pending).isEmpty then
    some { s with
      pending := waiting s.placed s.pending
      passes := s.passes + 1
      stopped := true }
  else
    some { s with
      placed := s.placed ++ (layer s.placed s.pending).map Entity.name
      layers := s.layers ++ [layer s.placed s.pending]
      pending := waiting s.placed s.pending
      passes := s.passes + 1 }

inductive Turns : Nat → Progress → Progress → Prop where
  | refl (s : Progress) : Turns 0 s s
  | turn {n : Nat} {s t u : Progress} : s.next? = some t → Turns n t u → Turns (n + 1) s u

/-! ## One turn -/

theorem layer_eq_nil_iff {placed : List String} {pending : List Entity} :
    layer placed pending = [] ↔ ∀ e ∈ pending, e.isReady placed = false := by
  rw [List.eq_nil_iff_forall_not_mem]
  simp [layer, Entity.sortByName]

theorem waiting_of_layer_eq_nil {placed : List String} {pending : List Entity}
    (h : layer placed pending = []) : waiting placed pending = pending := by
  rw [waiting, List.filter_eq_self]
  intro e he
  rw [layer_eq_nil_iff.mp h e he, Bool.not_false]

theorem length_layer_add_length_waiting (placed : List String) (pending : List Entity) :
    (layer placed pending).length + (waiting placed pending).length = pending.length := by
  rw [← List.length_append]
  exact (((Names.sortBy_perm _ _).append_right _).trans
    (List.filter_append_perm _ pending)).length_eq

/-- A turn finds entities pending.  It stops the loop and leaves them, or it places a layer. -/
theorem next?_cases (h : s.next? = some t) :
    s.stopped = false ∧ s.pending ≠ [] ∧
      (layer s.placed s.pending = [] ∧ t = { s with passes := s.passes + 1, stopped := true } ∨
        layer s.placed s.pending ≠ [] ∧ t = { s with
          placed := s.placed ++ (layer s.placed s.pending).map Entity.name
          layers := s.layers ++ [layer s.placed s.pending]
          pending := waiting s.placed s.pending
          passes := s.passes + 1 }) := by
  unfold next? at h
  split at h
  · cases h
  · next hgoes =>
      rw [Bool.not_eq_true, Bool.or_eq_false_iff, List.isEmpty_eq_false_iff] at hgoes
      refine ⟨hgoes.1, hgoes.2, ?_⟩
      split at h
      · next hnone =>
          have hlayer := List.isEmpty_iff.mp hnone
          cases h
          exact Or.inl ⟨hlayer, by rw [waiting_of_layer_eq_nil hlayer]⟩
      · next hsome =>
          cases h
          exact Or.inr ⟨mt List.isEmpty_iff.mpr hsome, rfl⟩

/-! ## Every turn -/

/-- The passes so far and the pending entities together are no more than the entities of the
worklist, but for the pass that stops the loop.  This pass leaves something pending. -/
structure Bounded (es : List Entity) (s : Progress) : Prop where
  length_le : s.passes + s.pending.length ≤ es.length + if s.stopped then 1 else 0
  pending_ne_nil : s.stopped = true → s.pending ≠ []

theorem bounded_start (es : List Entity) : Bounded es (start es) where
  length_le := (Nat.zero_add es.length).le
  pending_ne_nil := fun h => absurd h Bool.false_ne_true

theorem Bounded.next (hs : Bounded es s) (h : s.next? = some t) : Bounded es t := by
  obtain ⟨hgoes, hpending, hturn⟩ := next?_cases h
  have hbefore : s.passes + s.pending.length ≤ es.length := by
    have := hs.length_le
    rwa [hgoes] at this
  rcases hturn with ⟨-, rfl⟩ | ⟨hlayer, rfl⟩
  · refine ⟨?_, fun _ => hpending⟩
    change s.passes + 1 + s.pending.length ≤ es.length + 1
    omega
  · refine ⟨?_, fun hstopped => absurd (hgoes.symm.trans hstopped) Bool.false_ne_true⟩
    have hsplit := length_layer_add_length_waiting s.placed s.pending
    have hplaced := List.length_pos_iff.mpr hlayer
    change s.passes + 1 + (waiting s.placed s.pending).length ≤ _
    omega

theorem Bounded.turns (hs : Bounded es s) (h : Turns n s t) : Bounded es t := by
  induction h with
  | refl => exact hs
  | turn hnext _ ih => exact ih (hs.next hnext)

theorem Bounded.passes_le (hs : Bounded es s) : s.passes ≤ es.length := by
  have hlength := hs.length_le
  split at hlength
  · next hstopped =>
      have hpending := List.length_pos_iff.mpr (hs.pending_ne_nil hstopped)
      omega
  · omega

theorem passes_of_next? (h : s.next? = some t) : t.passes = s.passes + 1 := by
  obtain ⟨-, -, ⟨-, rfl⟩ | ⟨-, rfl⟩⟩ := next?_cases h <;> rfl

theorem Turns.passes_eq (h : Turns n s t) : t.passes = s.passes + n := by
  induction h with
  | refl => rfl
  | turn hnext _ ih => rw [ih, passes_of_next? hnext, Nat.add_assoc, Nat.add_comm 1]

/-- No run is longer than one that reaches the end. -/
theorem Turns.le_of_ended (hm : Turns m s t) (hn : Turns n s u) (hu : u.next? = none) :
    m ≤ n := by
  induction hm generalizing n with
  | refl => exact Nat.zero_le n
  | turn hnext _ ih =>
      cases hn with
      | refl => exact absurd (hnext.symm.trans hu) (Option.some_ne_none _)
      | turn hnext' hrest =>
          cases hnext.symm.trans hnext'
          exact Nat.succ_le_succ (ih hrest)

/-! ## The end of the loop -/

/-- From wherever it stands the loop comes to an end, and what it has placed by then and what it
leaves is what `settle` tells. -/
theorem exists_turns_settle (placed : List String) (layers : List (List Entity))
    (pending : List Entity) (passes : Nat) :
    ∃ t, Turns (settle placed pending).passes ⟨placed, layers, pending, passes, false⟩ t ∧
      t.next? = none ∧ t.layers = layers ++ (settle placed pending).layers ∧
      t.pending = (settle placed pending).stalled := by
  -- `settle` counts afresh after each layer, so what the loop has when it starts is left open.
  fun_induction settle placed pending generalizing layers passes with
  | case1 placed pending hempty =>
      exact ⟨_, .refl _, by simp [next?, hempty], (List.append_nil _).symm,
        List.isEmpty_iff.mp hempty⟩
  | case2 placed pending hsome hready later ih =>
      obtain ⟨e, he, hr⟩ := List.any_eq_true.mp hready
      have hlayer : layer placed pending ≠ [] := by
        intro hnone
        exact Bool.false_ne_true ((layer_eq_nil_iff.mp hnone e he).symm.trans hr)
      obtain ⟨t, hturns, hended, hlayers, hpending⟩ :=
        ih (layers ++ [layer placed pending]) (passes + 1)
      refine ⟨t, .turn ?_ hturns, hended, ?_, hpending⟩
      · simp [next?, hsome, hlayer]
      · rw [hlayers, List.append_assoc]
        rfl
  | case3 placed pending hsome hnone =>
      have hlayer : layer placed pending = [] := by
        rw [layer_eq_nil_iff]
        simpa using hnone
      refine ⟨⟨placed, layers, pending, passes + 1, true⟩, .turn ?_ (.refl _), rfl,
        (List.append_nil _).symm, rfl⟩
      simp [next?, hsome, hlayer, waiting_of_layer_eq_nil hlayer]

end Progress

end ServiceSchema.Placement

namespace ServiceSchema.Resolution

open Placement Placement.Progress

theorem isAcyclic_ofWorklist (es : List Entity) :
    (ofWorklist es).isAcyclic = (settle [] es).stalled.isEmpty := by
  have hperm : (ofWorklist es).circular.Perm (settle [] es).stalled := Names.sortBy_perm _ _
  rw [isAcyclic, Bool.eq_iff_iff, List.isEmpty_iff, List.isEmpty_iff]
  exact ⟨fun h => (h ▸ hperm).nil_eq.symm, fun h => (h ▸ hperm).eq_nil⟩

/-- The loop over a worklist ends, and no run of it is longer.  It makes one pass for each layer it
places, none of which is empty, and one more if a circular group is left; these are no more passes
than there are entities. -/
theorem loop_ends (es : List Entity) :
    ∃ s, Turns (settle [] es).passes (start es) s ∧ s.next? = none ∧
      (∀ n t, Turns n (start es) t → n ≤ (settle [] es).passes) ∧
      ofWorklist es = ⟨s.layers.flatten, Entity.sortByName s.pending⟩ ∧
      s.passes = (settle [] es).passes ∧
      s.passes ≤ es.length ∧
      (∀ l ∈ s.layers, l ≠ []) ∧
      s.passes = s.layers.length + if (ofWorklist es).isAcyclic then 0 else 1 := by
  obtain ⟨s, hturns, hended, hlayers, hpending⟩ := exists_turns_settle [] [] es 0
  rw [List.nil_append] at hlayers
  have hpasses : s.passes = (settle [] es).passes := hturns.passes_eq.trans (Nat.zero_add _)
  refine ⟨s, hturns, hended, fun n t ht => ht.le_of_ended hturns hended, ?_, hpasses,
    ((bounded_start es).turns hturns).passes_le, ?_, ?_⟩
  · rw [hlayers, hpending]
    rfl
  · rw [hlayers]
    exact (fromPass_zero es).layers_ne_nil
  · rw [hpasses, hlayers, isAcyclic_ofWorklist]
    exact (fromPass_zero es).passes_eq

/-- Two of three entities have one name, and one of these dangles: there are as many passes as
entities. -/
theorem loop_ends_after_three_passes :
    let a := Entity.record "A" []
    let b := Entity.record "B" [.required "a" (.named "A")]
    let other := Entity.record "A" [.required "g" (.named "Ghost")]
    (settle [] [b, other, a]).passes = 3 := by
  intro a b other
  obtain ⟨s, -, -, hlongest, -, hpasses, hbound, -⟩ := loop_ends [b, other, a]
  have hfirst : (start [b, other, a]).next? = some ⟨["A"], [[a]], [b, other], 1, false⟩ := by cbv
  have hsecond : next? ⟨["A"], [[a]], [b, other], 1, false⟩ =
      some ⟨["A", "B"], [[a], [b]], [other], 2, false⟩ := by cbv
  have hlast : next? ⟨["A", "B"], [[a], [b]], [other], 2, false⟩ =
      some ⟨["A", "B"], [[a], [b]], [other], 3, true⟩ := by cbv
  exact Nat.le_antisymm (hpasses ▸ hbound)
    (hlongest 3 _ (.turn hfirst (.turn hsecond (.turn hlast (.refl _)))))

end ServiceSchema.Resolution
