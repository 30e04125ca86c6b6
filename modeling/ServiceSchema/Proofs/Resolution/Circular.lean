import Mathlib.Data.Fintype.Card
import Mathlib.Data.Set.Finite.List
import ServiceSchema.Proofs.Resolution.Passes
/-!
# The circular group

An entity is stalled exactly when some chain of dependency steps leads from it to an entity that
dangles or lies on a cycle.  Nothing on such a chain is ever placed, as placing an entity places its
dependencies in an earlier pass.  Conversely, the entities that can be reached from one without such
a chain are finitely many and free of cycles, so induction along their dependencies places them all.
-/

namespace ServiceSchema.Entity

/-- A chain of dependency steps leads to an entity that dangles or lies on a cycle. -/
def Stalls (es : List Entity) (e : Entity) : Prop :=
  ∃ f, Reaches es e f ∧ (Dangles es f ∨ OnCycle es f)

end ServiceSchema.Entity

namespace ServiceSchema.Placement

open Entity

variable {es : List Entity} {e f : Entity} {k : Nat}

/-! ## What is placed does not stall -/

theorem placedWithin_of_dependsOn (hes : (es.map name).Nodup)
    (h : placedWithin es (k + 1) e = true) (hef : DependsOn es e f) :
    placedWithin es k f = true := by
  obtain ⟨g, hg, hplaced, hname⟩ := placedWithin_succ_iff.mp h f.name hef.2
  rwa [← eq_of_name_eq hes hg hef.1 hname]

theorem exists_placedWithin_lt (hes : (es.map name).Nodup) (h : placedWithin es k e = true)
    (hef : Relation.TransGen (DependsOn es) e f) : ∃ j < k, placedWithin es j f = true := by
  induction hef using Relation.TransGen.head_induction_on generalizing k with
  | single hstep =>
      cases k with
      | zero => exact absurd h Bool.false_ne_true
      | succ k => exact ⟨k, Nat.lt_succ_self k, placedWithin_of_dependsOn hes h hstep⟩
  | head hstep _ ih =>
      cases k with
      | zero => exact absurd h Bool.false_ne_true
      | succ k =>
          obtain ⟨j, hj, hplaced⟩ := ih (placedWithin_of_dependsOn hes h hstep)
          exact ⟨j, Nat.lt_succ_of_lt hj, hplaced⟩

theorem Placeable.of_reaches (hes : (es.map name).Nodup) (h : Placeable es e)
    (hef : Reaches es e f) : Placeable es f := by
  obtain ⟨k, hk⟩ := h
  rcases Relation.reflTransGen_iff_eq_or_transGen.mp hef with rfl | hsteps
  · exact ⟨k, hk⟩
  · obtain ⟨j, -, hj⟩ := exists_placedWithin_lt hes hk hsteps
    exact ⟨j, hj⟩

theorem Placeable.not_dangles (h : Placeable es e) : ¬ Dangles es e := by
  rintro ⟨n, hn, hunknown⟩
  obtain ⟨f, hf, -, hname⟩ := placeable_iff.mp h n hn
  exact hunknown (List.mem_map.mpr ⟨f, hf, hname⟩)

/-- A cycle has no entity that is placed first. -/
theorem Placeable.not_onCycle (hes : (es.map name).Nodup) (h : Placeable es e) :
    ¬ OnCycle es e := by
  classical
  intro hcycle
  obtain ⟨j, hj, hplaced⟩ := exists_placedWithin_lt hes (Nat.find_spec h) hcycle.transGen
  exact Nat.find_min h hj hplaced

theorem Placeable.not_stalls (hes : (es.map name).Nodup) (h : Placeable es e) :
    ¬ Stalls es e := by
  rintro ⟨f, hef, hdangles | hcycle⟩
  · exact (h.of_reaches hes hef).not_dangles hdangles
  · exact (h.of_reaches hes hef).not_onCycle hes hcycle

/-! ## What does not stall is placed -/

/-- The dependency steps below an entity that does not stall are well-founded. -/
theorem wellFounded_below (h : ¬ Stalls es e) :
    WellFounded fun y x : {x // x ∈ es} =>
      Reaches es e x ∧ Relation.TransGen (DependsOn es) x.1 y.1 := by
  have : Finite {x // x ∈ es} := (List.finite_toSet es).to_subtype
  have : IsTrans {x // x ∈ es} fun y x =>
      Reaches es e x ∧ Relation.TransGen (DependsOn es) x.1 y.1 :=
    ⟨fun _ _ _ hzy hyx => ⟨hyx.1, hyx.2.trans hzy.2⟩⟩
  have : Std.Irrefl fun y x : {x // x ∈ es} =>
      Reaches es e x ∧ Relation.TransGen (DependsOn es) x.1 y.1 :=
    ⟨fun x hx => h ⟨x, hx.1, Or.inr (onCycle_of_transGen hx.2)⟩⟩
  exact Finite.wellFounded_of_trans_of_irrefl _

theorem placeable_of_not_stalls (he : e ∈ es) (h : ¬ Stalls es e) : Placeable es e := by
  have hbelow : ∀ x : {x // x ∈ es}, Reaches es e x → Placeable es x := by
    intro x
    induction x using (wellFounded_below h).induction with
    | _ x ih =>
        intro hx
        rw [placeable_iff]
        intro n hn
        have hsound : ¬ Dangles es x := fun hdangles => h ⟨x, hx, Or.inl hdangles⟩
        obtain ⟨f, hf, hname⟩ := exists_of_not_dangles hsound hn
        have hstep : DependsOn es x f := ⟨hf, hname ▸ hn⟩
        exact ⟨f, hf, ih ⟨f, hf⟩ ⟨hx, .single hstep⟩ (hx.tail hstep), hname⟩
  exact hbelow ⟨e, he⟩ .refl

theorem placeable_iff_not_stalls (hes : (es.map name).Nodup) (he : e ∈ es) :
    Placeable es e ↔ ¬ Stalls es e :=
  ⟨fun h => h.not_stalls hes, placeable_of_not_stalls he⟩

end ServiceSchema.Placement

namespace ServiceSchema.Resolution

open Placement

/-- The circular group consists of the entities that stall, and all others are ordered. -/
theorem mem_circular_iff_stalls {es : List Entity} (hes : (es.map Entity.name).Nodup) :
    (∀ e, e ∈ (ofWorklist es).circular ↔ e ∈ es ∧ e.Stalls es) ∧
      ∀ e, e ∈ (ofWorklist es).ordered ↔ e ∈ es ∧ ¬ e.Stalls es := by
  constructor
  · intro e
    rw [mem_circular_iff_not_placeable]
    exact and_congr_right fun he => by rw [placeable_iff_not_stalls hes he, not_not]
  · intro e
    rw [mem_ordered_iff_placeable]
    exact and_congr_right fun he => placeable_iff_not_stalls hes he

/-- What depends on a cycle is circular without lying on it. -/
theorem mem_circular_of_dependsOn_cycle :
    let a := Entity.record "A" [.required "b" (.named "B")]
    let b := Entity.record "B" [.required "a" (.named "A")]
    let report := Entity.record "Report" [.required "a" (.named "A")]
    report ∈ (ofWorklist [report, b, a]).circular := by
  intro a b report
  have hes : ([report, b, a].map Entity.name).Nodup := by decide
  have hreport : report.DependsOn [report, b, a] a := ⟨by simp, by decide⟩
  have hab : a.DependsOn [report, b, a] b := ⟨by simp, by decide⟩
  have hba : b.DependsOn [report, b, a] a := ⟨by simp, by decide⟩
  have hcycle : a.OnCycle [report, b, a] := ⟨b, hba.ne, .single hab, .single hba⟩
  exact ((mem_circular_iff_stalls hes).1 report).mpr
    ⟨by simp, a, .single hreport, Or.inr hcycle⟩

end ServiceSchema.Resolution
