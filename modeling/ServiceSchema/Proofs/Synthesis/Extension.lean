import ServiceSchema.Proofs.Resolution.Depth
import ServiceSchema.Proofs.Schema.References
import ServiceSchema.Synthesis
/-!
# Extending a worklist

Further entities may unblock what was stalled and enlarge every layer, but what was ordered before
keeps its layer: its dependencies are ordered as well, and no further entity bears one of their
names.  So it keeps its place relative to the others, and its schema, which only looks up
dependencies in the circular group.
-/

namespace ServiceSchema.Placement

open Entity

variable {es fs : List Entity} {e : Entity} {k : Nat}

theorem placedWithin_of_superset (hfs : (fs.map name).Nodup) (hsub : es ⊆ fs)
    (he : Placeable es e) (h : placedWithin fs k e = true) : placedWithin es k e = true := by
  induction k generalizing e with
  | zero => exact absurd h Bool.false_ne_true
  | succ k ih =>
      rw [placedWithin_succ_iff] at h ⊢
      intro n hn
      obtain ⟨f, hf, hplaceable, hfname⟩ := placeable_iff.mp he n hn
      obtain ⟨g, hg, hplaced, hgname⟩ := h n hn
      obtain rfl : f = g := eq_of_name_eq hfs (hsub hf) hg (hfname.trans hgname.symm)
      exact ⟨f, hf, ih hplaceable hplaced, hfname⟩

theorem mem_layerAt_of_subset (hfs : (fs.map name).Nodup) (hsub : es ⊆ fs)
    (h : e ∈ layerAt es k) : e ∈ layerAt fs k := by
  obtain ⟨he, hplaced, hbefore⟩ := mem_layerAt.mp h
  refine mem_layerAt.mpr ⟨hsub he, placedWithin_of_subset hsub hplaced, ?_⟩
  rw [← Bool.not_eq_true] at hbefore ⊢
  exact fun hnow => hbefore (placedWithin_of_superset hfs hsub ⟨_, hplaced⟩ hnow)

end ServiceSchema.Placement

namespace ServiceSchema.Resolution

open Placement Entity

variable {es fs : List Entity} {e f : Entity}

theorem mem_ordered_of_subset (hsub : es ⊆ fs) (h : e ∈ (ofWorklist es).ordered) :
    e ∈ (ofWorklist fs).ordered := by
  obtain ⟨he, k, hk⟩ := mem_ordered_iff_placeable.mp h
  exact mem_ordered_iff_placeable.mpr ⟨hsub he, k, placedWithin_of_subset hsub hk⟩

theorem depth_of_subset (hes : (es.map name).Nodup) (hfs : (fs.map name).Nodup) (hsub : es ⊆ fs)
    (h : e ∈ (ofWorklist es).ordered) : depth fs e = depth es e := by
  obtain ⟨k, -, hlayer⟩ := mem_ordered_iff_layer.mp h
  rw [depth_eq hes hlayer, depth_eq hfs (mem_layerAt_of_subset hfs hsub hlayer)]

theorem nodup_ordered (hes : (es.map name).Nodup) : (ofWorklist es).ordered.Nodup :=
  (pairwise_ordered hes).imp fun hef heq => (heq ▸ hef).asymm (heq ▸ hef)

theorem ordered_sublist (hes : (es.map name).Nodup) (hfs : (fs.map name).Nodup) (hsub : es ⊆ fs) :
    (ofWorklist es).ordered.Sublist (ofWorklist fs).ordered := by
  have hincluded : (ofWorklist es).ordered ⊆ (ofWorklist fs).ordered :=
    fun _ => mem_ordered_of_subset hsub
  have hsorted : (ofWorklist es).ordered.Pairwise (Precedes fs) := by
    refine (pairwise_ordered hes).imp_of_mem ?_
    intro e f he hf hef
    rwa [Precedes, depth_of_subset hes hfs hsub he, depth_of_subset hes hfs hsub hf]
  have : Std.Antisymm (Precedes fs) := ⟨fun _ _ hef hfe => absurd hfe hef.asymm⟩
  exact List.sublist_of_subperm_of_pairwise
    (List.subperm_of_subset (nodup_ordered hes) hincluded) hsorted (pairwise_ordered hfs)

theorem notMem_circularNames_of_mem_dependencies (hes : (es.map name).Nodup)
    (he : e ∈ (ofWorklist es).ordered) {n : String} (hn : n ∈ e.dependencies) :
    n ∉ (ofWorklist es).circularNames := by
  obtain ⟨f, hf, rfl⟩ := exists_mem_ordered_of_mem_dependencies he hn
  exact name_notMem_circularNames hes hf

theorem definition_of_subset (hes : (es.map name).Nodup) (hfs : (fs.map name).Nodup)
    (hsub : es ⊆ fs) (he : e ∈ (ofWorklist es).ordered) :
    e.definition (ofWorklist es).circularNames = e.definition (ofWorklist fs).circularNames := by
  have hschema : e.schema (ofWorklist es).circularNames =
      e.schema (ofWorklist fs).circularNames := by
    apply schema_congr
    intro n hn
    exact iff_of_false (notMem_circularNames_of_mem_dependencies hes he hn)
      (notMem_circularNames_of_mem_dependencies hfs (mem_ordered_of_subset hsub he) hn)
  rw [definition, definition, hschema]

/-- Further entities leave the ordered definitions as they are, in their order, and move none of
them to the circular group. -/
theorem definitions_sublist (hes : (es.map name).Nodup) (hfs : (fs.map name).Nodup)
    (hsub : es ⊆ fs) :
    (ofWorklist es).synthesis.definitions.Sublist (ofWorklist fs).synthesis.definitions ∧
      ∀ e ∈ (ofWorklist es).ordered, e ∉ (ofWorklist fs).circular := by
  constructor
  · have hsame : (ofWorklist es).synthesis.definitions =
        (ofWorklist es).ordered.map (definition (ofWorklist fs).circularNames) :=
      List.map_congr_left fun _ he => definition_of_subset hes hfs hsub he
    rw [hsame]
    exact (ordered_sublist hes hfs hsub).map _
  · intro e he hcircular
    have hplaceable := (mem_ordered_iff_placeable.mp (mem_ordered_of_subset hsub he)).2
    exact (mem_circular_iff_not_placeable.mp hcircular).2 hplaceable

/-- A declaration that was missing joins the ordered ones and unblocks others. -/
theorem definitions_sublist_of_missing_declaration :
    let user := Entity.record "User" []
    let ghost := Entity.record "Ghost" []
    let post := Entity.record "Post" [.required "author" (.named "Ghost")]
    (ofWorklist [user, post]).synthesis.definitions.Sublist
        (ofWorklist [post, ghost, user]).synthesis.definitions ∧
      ∀ e ∈ (ofWorklist [user, post]).ordered, e ∉ (ofWorklist [post, ghost, user]).circular :=
  definitions_sublist (by decide) (by decide) (by simp)

end ServiceSchema.Resolution
