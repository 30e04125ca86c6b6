import Mathlib.Data.List.Forall2
import ServiceSchema.Resolution
import ServiceSchema.Proofs.Names.Bytes
import ServiceSchema.Proofs.Resolution.Circular
/-!
# What is reported

Only the circular group is searched for unknown names.  That is enough: an entity is ordered after
all that it depends on, so none that dangles is ordered, not even one that shares its name with an
ordered entity.  Conversely an entity that only depends on a dangling one, or lies on a cycle, is in
the circular group without a report of its own.
-/

namespace ServiceSchema.Entity

variable {es : List Entity} {e : Entity}

instance (es : List Entity) : DecidablePred (Dangles es) := fun e =>
  inferInstanceAs (Decidable (∃ n ∈ e.dependencies, n ∉ es.map name))

/-- The names that an entity depends on and that no entity of the worklist has, in the order of
their bytes. -/
structure MissingNames (es : List Entity) (e : Entity) (ns : List String) : Prop where
  increasing : ns.Pairwise fun n m => Names.bytes n < Names.bytes m
  mem_iff : ∀ n, n ∈ ns ↔ n ∈ e.dependencies ∧ n ∉ es.map name

/-- A diagnostic is about an entity and lists the names that it misses. -/
structure ReportedBy (es : List Entity) (e : Entity) (d : Diagnostic) : Prop where
  names_eq : d.names = [e.name]
  message_eq : ∃ ns, MissingNames es e ns ∧
    d.message = e.name ++ " references unknown " ++ String.intercalate ", " ns

theorem pairwise_dependencies (e : Entity) :
    e.dependencies.Pairwise fun n m => Names.bytes n < Names.bytes m :=
  (Names.pairwise_lt_distinct _).imp Names.bytes_lt_bytes_of_lt

end ServiceSchema.Entity

namespace ServiceSchema.Resolution

open Entity Placement

variable {es : List Entity} {e : Entity}

theorem mem_map_name_entities {n : String} :
    n ∈ (ofWorklist es).entities.map Entity.name ↔ n ∈ es.map Entity.name :=
  ((entities_perm es).map Entity.name).mem_iff

theorem missingNames_unknownNames (es : List Entity) (e : Entity) :
    MissingNames es e ((ofWorklist es).unknownNames e) where
  increasing := (pairwise_dependencies e).filter _
  mem_iff n := by
    rw [unknownNames, List.mem_filter, Bool.not_eq_true', ← Bool.not_eq_true, List.contains_iff_mem,
      mem_map_name_entities]

theorem unknownNames_ne_nil_iff : (ofWorklist es).unknownNames e ≠ [] ↔ Dangles es e := by
  simp only [ne_eq, List.eq_nil_iff_forall_not_mem, not_forall, not_not,
    (missingNames_unknownNames es e).mem_iff]
  rfl

theorem unknownDiagnostic?_of_dangles (h : Dangles es e) :
    ∃ d, (ofWorklist es).unknownDiagnostic? e = some d ∧ ReportedBy es e d := by
  have hsome : ¬ ((ofWorklist es).unknownNames e).isEmpty = true := by
    rw [List.isEmpty_iff]
    exact unknownNames_ne_nil_iff.mpr h
  exact ⟨_, if_neg hsome, rfl, _, missingNames_unknownNames es e, rfl⟩

theorem unknownDiagnostic?_of_not_dangles (h : ¬ Dangles es e) :
    (ofWorklist es).unknownDiagnostic? e = none := by
  apply if_pos
  rw [List.isEmpty_iff]
  exact not_not.mp (mt unknownNames_ne_nil_iff.mp h)

/-- The dangling entities of a list are reported in their order, and no others. -/
theorem forall₂_reportedBy (fs : List Entity) :
    List.Forall₂ (ReportedBy es) (fs.filter (Dangles es ·))
      (fs.filterMap (ofWorklist es).unknownDiagnostic?) := by
  induction fs with
  | nil => exact .nil
  | cons f fs ih =>
      by_cases h : Dangles es f
      · obtain ⟨d, hd, hreported⟩ := unknownDiagnostic?_of_dangles h
        rw [List.filter_cons_of_pos (by simpa using h), List.filterMap_cons_some hd]
        exact .cons hreported ih
      · rw [List.filter_cons_of_neg (by simpa using h),
          List.filterMap_cons_none (unknownDiagnostic?_of_not_dangles h)]
        exact ih

theorem not_dangles_of_mem_ordered (h : e ∈ (ofWorklist es).ordered) : ¬ Dangles es e :=
  (mem_ordered_iff_placeable.mp h).2.not_dangles

/-- The dangling entities of a worklist are those of its circular group. -/
theorem filter_dangles_perm (es : List Entity) :
    ((ofWorklist es).circular.filter (Dangles es ·)).Perm (es.filter (Dangles es ·)) := by
  have hnone : (ofWorklist es).ordered.filter (Dangles es ·) = [] := by
    rw [List.filter_eq_nil_iff]
    intro e he
    rw [decide_eq_true_eq]
    exact not_dangles_of_mem_ordered he
  have hall := (entities_perm es).filter (Dangles es ·)
  rwa [entities, List.filter_append, hnone, List.nil_append] at hall

theorem diagnostics_eq_nil_iff {r : Resolution} : r.diagnostics = [] ↔ r.circular = [] := by
  unfold diagnostics
  split
  · next hempty => exact iff_of_true rfl (List.isEmpty_iff.mp hempty)
  · next hsome => exact iff_of_false (List.cons_ne_nil _ _) (mt List.isEmpty_iff.mpr hsome)

theorem diagnostics_of_circular_ne_nil {r : Resolution} (h : r.circular ≠ []) :
    r.diagnostics = r.circularDiagnostic :: r.circular.filterMap r.unknownDiagnostic? :=
  if_neg (mt List.isEmpty_iff.mp h)

/-- There is something to report exactly if there is a circular group.  Its entities are named
first, in their order.  Then the dangling entities among them follow one by one, each with the names
that it misses.  They are all the dangling entities of the worklist, as none is ordered. -/
theorem diagnostics_exact (es : List Entity) :
    ((ofWorklist es).diagnostics = [] ↔ (ofWorklist es).circular = []) ∧
    ((ofWorklist es).circular ≠ [] → ∃ first rest,
      (ofWorklist es).diagnostics = first :: rest ∧
      first.names = (ofWorklist es).circular.map Entity.name ∧
      first.message = "circular references between " ++ String.intercalate ", " first.names ++
        "; using lazy references" ∧
      List.Forall₂ (ReportedBy es) ((ofWorklist es).circular.filter (Dangles es ·)) rest) ∧
    ((ofWorklist es).circular.filter (Dangles es ·)).Perm (es.filter (Dangles es ·)) ∧
    ∀ e ∈ (ofWorklist es).ordered, ¬ Dangles es e := by
  refine ⟨diagnostics_eq_nil_iff, ?_, filter_dangles_perm es, fun _ => not_dangles_of_mem_ordered⟩
  intro h
  exact ⟨_, _, diagnostics_of_circular_ne_nil h, rfl, rfl, forall₂_reportedBy _⟩

/-- An entity on a cycle that dangles as well, one that is on the cycle only, one that depends on
it, and two of one name, of which one dangles and the other is ordered. -/
theorem diagnostics_exact_of_shared_name :
    let a := Entity.record "A" [.required "b" (.named "B"), .required "g" (.named "Ghost")]
    let b := Entity.record "B" [.required "a" (.named "A")]
    let report := Entity.record "Report" [.required "a" (.named "A")]
    let post := Entity.record "Post" [.required "g" (.named "Ghost"), .required "e" (.named "Echo")]
    let empty := Entity.record "Post" []
    let blog := Entity.record "Blog" [.required "posts" (.named "Post")]
    (ofWorklist [post, report, blog, b, a, empty]).circular ≠ [] ∧
      (ofWorklist [post, report, blog, b, a, empty]).diagnostics.length = 3 := by
  intro a b report post empty blog
  obtain ⟨-, hreports, hperm, -⟩ := diagnostics_exact [post, report, blog, b, a, empty]
  have hdangles : Dangles [post, report, blog, b, a, empty] a := by decide
  have ha : a ∈ (ofWorklist [post, report, blog, b, a, empty]).circular :=
    mem_circular_iff_not_placeable.mpr ⟨by simp, fun h => h.not_dangles hdangles⟩
  have hcircular := List.ne_nil_of_mem ha
  obtain ⟨first, rest, hdiagnostics, -, -, hrest⟩ := hreports hcircular
  refine ⟨hcircular, ?_⟩
  rw [hdiagnostics, List.length_cons, ← hrest.length_eq, hperm.length_eq]
  decide

end ServiceSchema.Resolution
