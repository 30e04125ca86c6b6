import ServiceSchema.Proofs.Names.Bytes
import ServiceSchema.Proofs.Resolution.Circular
/-!
# Depth and the order of emission

The depth of an entity is the length of the longest chain of dependency steps from it.  The loop
never computes it, but pass `k` places exactly the entities of depth `k`: each dependency of such an
entity lies in an earlier layer, and one of them in the layer just before.  So the ordered entities
increase by depth, and within one depth by name.
-/

namespace ServiceSchema.Entity

def prerequisites (es : List Entity) (e : Entity) : List Entity :=
  es.filter fun f => e.dependencies.contains f.name

/-- The length of the longest chain of at most `k` dependency steps from an entity. -/
def chainLength (es : List Entity) : (k : Nat) → Entity → Nat
  | 0, _ => 0
  | k + 1, e => ((prerequisites es e).map (chainLength es k)).max?.elim 0 (1 + ·)

/-- The length of the longest chain of dependency steps from an entity.  A chain with more steps
than the worklist has entities goes round a cycle. -/
def depth (es : List Entity) (e : Entity) : Nat := chainLength es es.length e

/-- The order of emission: by depth, then by the bytes of the names. -/
def Precedes (es : List Entity) (e f : Entity) : Prop :=
  depth es e < depth es f ∨
    depth es e = depth es f ∧ Names.bytes e.name < Names.bytes f.name

theorem Precedes.depth_le {es : List Entity} {e f : Entity} (h : Precedes es e f) :
    depth es e ≤ depth es f := by
  rcases h with hlt | ⟨heq, -⟩
  · exact hlt.le
  · exact heq.le

theorem Precedes.asymm {es : List Entity} {e f : Entity} (h : Precedes es e f) :
    ¬ Precedes es f e := by
  intro hback
  have heq : depth es e = depth es f := le_antisymm h.depth_le hback.depth_le
  rcases h with hlt | ⟨-, hbytes⟩
  · exact hlt.ne heq
  · rcases hback with hlt | ⟨-, hbytes'⟩
    · exact hlt.ne heq.symm
    · exact List.lt_asymm hbytes hbytes'

theorem mem_prerequisites {es : List Entity} {e f : Entity} :
    f ∈ prerequisites es e ↔ DependsOn es e f := by
  simp [prerequisites, DependsOn]

end ServiceSchema.Entity

namespace ServiceSchema.Placement

open Entity

variable {es : List Entity} {e f : Entity} {i j k : Nat}

/-! ## Layers and chains -/

theorem dependencies_eq_nil_of_mem_layerAt_zero (h : e ∈ layerAt es 0) : e.dependencies = [] := by
  rw [List.eq_nil_iff_forall_not_mem]
  intro n hn
  obtain ⟨f, -, hplaced, -⟩ := placedWithin_succ_iff.mp (mem_layerAt.mp h).2.1 n hn
  exact Bool.false_ne_true hplaced

theorem exists_mem_layerAt_lt (hes : (es.map name).Nodup) (h : e ∈ layerAt es k)
    (hef : DependsOn es e f) : ∃ i < k, f ∈ layerAt es i :=
  exists_mem_layerAt hef.1 (placedWithin_of_dependsOn hes (mem_layerAt.mp h).2.1 hef)

/-- What a layer waited for stands in the layer before. -/
theorem exists_dependsOn_mem_layerAt (h : e ∈ layerAt es (k + 1)) :
    ∃ f, DependsOn es e f ∧ f ∈ layerAt es k := by
  obtain ⟨-, hplaced, hbefore⟩ := mem_layerAt.mp h
  have hwaits : ¬ ∀ n ∈ e.dependencies, ∃ f ∈ es, placedWithin es k f = true ∧ f.name = n := by
    rw [← placedWithin_succ_iff, hbefore]
    exact Bool.false_ne_true
  simp only [not_forall] at hwaits
  obtain ⟨n, hn, hnone⟩ := hwaits
  obtain ⟨f, hf, hnow, rfl⟩ := placedWithin_succ_iff.mp hplaced n hn
  refine ⟨f, ⟨hf, hn⟩, mem_layerAt.mpr ⟨hf, hnow, ?_⟩⟩
  rw [← Bool.not_eq_true]
  exact fun hearlier => hnone ⟨f, hf, hearlier, rfl⟩

/-- The greatest layer among the dependencies is the one before, whatever function `g` tells the
layers up to there. -/
theorem max?_prerequisites (hes : (es.map name).Nodup) (h : e ∈ layerAt es (k + 1))
    {g : Entity → Nat} (hg : ∀ i ≤ k, ∀ f ∈ layerAt es i, g f = i) :
    ((prerequisites es e).map g).max? = some k := by
  rw [List.max?_eq_some_iff]
  constructor
  · obtain ⟨f, hef, hf⟩ := exists_dependsOn_mem_layerAt h
    exact List.mem_map.mpr ⟨f, mem_prerequisites.mpr hef, hg k le_rfl f hf⟩
  · intro d hd
    obtain ⟨f, hef, rfl⟩ := List.mem_map.mp hd
    obtain ⟨i, hi, hf⟩ := exists_mem_layerAt_lt hes h (mem_prerequisites.mp hef)
    rw [hg i (Nat.le_of_lt_succ hi) f hf]
    exact Nat.le_of_lt_succ hi

theorem prerequisites_eq_nil (h : e.dependencies = []) : prerequisites es e = [] := by
  simp [prerequisites, h]

theorem chainLength_eq (hes : (es.map name).Nodup) (h : e ∈ layerAt es k) (hkj : k ≤ j) :
    chainLength es j e = k := by
  induction j generalizing e k with
  | zero => exact (Nat.le_zero.mp hkj).symm
  | succ j ih =>
      cases k with
      | zero =>
          have hnone := dependencies_eq_nil_of_mem_layerAt_zero h
          simp [chainLength, prerequisites_eq_nil hnone]
      | succ k =>
          have hbelow : ∀ i ≤ k, ∀ f ∈ layerAt es i, chainLength es j f = i :=
            fun i hi f hf => ih hf (hi.trans (Nat.le_of_succ_le_succ hkj))
          rw [chainLength, max?_prerequisites hes h hbelow]
          exact Nat.add_comm 1 k

theorem depth_eq (hes : (es.map name).Nodup) (h : e ∈ layerAt es k) : depth es e = k :=
  chainLength_eq hes h ((lt_layerCount h).le.trans (layerCount_le_length es))

theorem depth_eq_zero (h : e.dependencies = []) : depth es e = 0 := by
  rw [depth]
  cases es.length with
  | zero => rfl
  | succ j => simp [chainLength, prerequisites_eq_nil h]

/-- The depth of a placed entity that waits for others is one more than the greatest of theirs. -/
theorem depth_eq_succ (hes : (es.map name).Nodup) (h : e ∈ layerAt es k)
    (hdeps : e.dependencies ≠ []) :
    ∃ d, ((prerequisites es e).map (depth es)).max? = some d ∧ depth es e = 1 + d := by
  cases k with
  | zero => exact absurd (dependencies_eq_nil_of_mem_layerAt_zero h) hdeps
  | succ k =>
      refine ⟨k, max?_prerequisites hes h fun i _ f hf => depth_eq hes hf, ?_⟩
      rw [depth_eq hes h, Nat.add_comm]

theorem exists_chain (h : e ∈ layerAt es k) :
    ∃ c, (e :: c).IsChain (DependsOn es) ∧ c.length = k := by
  induction k generalizing e with
  | zero => exact ⟨[], List.IsChain.singleton e, rfl⟩
  | succ k ih =>
      obtain ⟨f, hef, hf⟩ := exists_dependsOn_mem_layerAt h
      obtain ⟨c, hc, hlength⟩ := ih hf
      exact ⟨f :: c, List.IsChain.cons_cons hef hc, congrArg Nat.succ hlength⟩

theorem length_le_of_isChain (hes : (es.map name).Nodup) (h : e ∈ layerAt es k)
    {c : List Entity} (hc : (e :: c).IsChain (DependsOn es)) : c.length ≤ k := by
  induction c generalizing e k with
  | nil => exact Nat.zero_le k
  | cons f c ih =>
      rw [List.isChain_cons_cons] at hc
      obtain ⟨i, hi, hf⟩ := exists_mem_layerAt_lt hes h hc.1
      exact Nat.lt_of_le_of_lt (ih hf hc.2) hi

/-! ## The order within and across layers -/

theorem pairwise_layerAt (hes : (es.map name).Nodup) (k : Nat) :
    (layerAt es k).Pairwise (Precedes es) := by
  have hnames : ((es.filter fun e => placedWithin es (k + 1) e && !placedWithin es k e).map
      name).Nodup := hes.sublist (List.filter_sublist.map name)
  refine (Names.pairwise_lt_sortBy name hnames).imp_of_mem ?_
  intro e f he hf hlt
  exact Or.inr ⟨(depth_eq hes he).trans (depth_eq hes hf).symm, Names.bytes_lt_bytes_iff.mpr hlt⟩

end ServiceSchema.Placement

namespace ServiceSchema.Resolution

open Placement Entity

variable {es : List Entity} {e f : Entity}

theorem depth_lt_of_dependsOn (hes : (es.map name).Nodup) (he : e ∈ (ofWorklist es).ordered)
    (hef : DependsOn es e f) : depth es f < depth es e := by
  obtain ⟨k, -, hlayer⟩ := mem_ordered_iff_layer.mp he
  obtain ⟨i, hi, hbelow⟩ := exists_mem_layerAt_lt hes hlayer hef
  rwa [depth_eq hes hlayer, depth_eq hes hbelow]

theorem pairwise_ordered (hes : (es.map name).Nodup) :
    (ofWorklist es).ordered.Pairwise (Precedes es) := by
  rw [ordered_eq, List.pairwise_flatten]
  constructor
  · intro l hl
    obtain ⟨k, -, rfl⟩ := List.mem_map.mp hl
    exact pairwise_layerAt hes k
  · rw [List.pairwise_map]
    refine List.pairwise_lt_range.imp ?_
    intro i j hij e he f hf
    rw [Precedes, depth_eq hes he, depth_eq hes hf]
    exact Or.inl hij

theorem pairwise_circular (hes : (es.map name).Nodup) :
    (ofWorklist es).circular.Pairwise fun e f => Names.bytes e.name < Names.bytes f.name := by
  have hnames : ((es.filter fun e => !placedWithin es (layerCount es) e).map name).Nodup :=
    hes.sublist (List.filter_sublist.map name)
  rw [circular_eq]
  exact (Names.pairwise_lt_sortBy name hnames).imp Names.bytes_lt_bytes_iff.mpr

/-- Resolution permutes the worklist.  Its ordered part increases by depth and name, where the depth
of an entity is zero without dependencies and else one more than the greatest depth among them, the
length of the longest chain; the circular part increases by name. -/
theorem emission_order (hes : (es.map name).Nodup) :
    ((ofWorklist es).ordered ++ (ofWorklist es).circular).Perm es ∧
    (∀ e ∈ (ofWorklist es).ordered,
      (e.dependencies = [] → depth es e = 0) ∧
      (e.dependencies ≠ [] → ∃ d,
        ((prerequisites es e).map (depth es)).max? = some d ∧ depth es e = 1 + d) ∧
      (∃ c, (e :: c).IsChain (DependsOn es) ∧ c.length = depth es e) ∧
      ∀ c, (e :: c).IsChain (DependsOn es) → c.length ≤ depth es e) ∧
    (ofWorklist es).ordered.Pairwise (fun e f =>
      depth es e < depth es f ∨
        depth es e = depth es f ∧ Names.bytes e.name < Names.bytes f.name) ∧
    (ofWorklist es).circular.Pairwise
      (fun e f => Names.bytes e.name < Names.bytes f.name) := by
  refine ⟨entities_perm es, ?_, pairwise_ordered hes, pairwise_circular hes⟩
  intro e he
  obtain ⟨k, -, hlayer⟩ := mem_ordered_iff_layer.mp he
  rw [depth_eq hes hlayer]
  refine ⟨fun hnone => ?_, fun hdeps => ?_, exists_chain hlayer,
    fun c hc => length_le_of_isChain hes hlayer hc⟩
  · rw [← depth_eq hes hlayer, depth_eq_zero hnone]
  · rw [← depth_eq hes hlayer]
    exact depth_eq_succ hes hlayer hdeps

theorem emission_order_of_two_layers :
    let apple := Entity.record "Apple" []
    let lower := Entity.record "apple" []
    let mango := Entity.record "Mango" [.required "a" (.named "Apple")]
    let es := [mango, lower, apple]
    ((ofWorklist es).ordered ++ (ofWorklist es).circular).Perm es ∧
      (ofWorklist es).ordered.Pairwise (fun e f =>
        depth es e < depth es f ∨
          depth es e = depth es f ∧ Names.bytes e.name < Names.bytes f.name) ∧
      depth es mango = 1 := by
  intro apple lower mango es
  have hes : (es.map name).Nodup := by decide
  obtain ⟨hperm, hdepth, hordered, -⟩ := emission_order hes
  refine ⟨hperm, hordered, ?_⟩
  have hmango : mango ∈ (ofWorklist es).ordered :=
    mem_ordered_iff_placeable.mpr ⟨by simp [es], 2, by decide⟩
  obtain ⟨d, hmax, hsucc⟩ := (hdepth mango hmango).2.1 (by decide)
  have hmax' : ((prerequisites es mango).map (depth es)).max? = some 0 := by decide
  rw [hsucc, Option.some.inj (hmax.symm.trans hmax')]

end ServiceSchema.Resolution
