import ServiceSchema.Proofs.Resolution.Depth
import ServiceSchema.Proofs.Resolution.Diagnostics
import ServiceSchema.Proofs.Schema.References
import ServiceSchema.Synthesis
/-!
# Definition before use

In the definitions of a service every eager reference leads to an earlier definition, unless no
entity has the name that it carries; such a reference stands in the circular part and is reported.
Lazy references stay within the definitions: they lead to the definition itself or into the circular
part.
-/

namespace ServiceSchema.Resolution

open Placement Entity

variable {es : List Entity} {e f : Entity} {n : String}

theorem exists_getElem_ordered_lt (hes : (es.map name).Nodup) {i : Nat}
    (hi : i < (ofWorklist es).ordered.length) (hn : n ∈ (ofWorklist es).ordered[i].dependencies) :
    ∃ j, ∃ hj : j < i, ((ofWorklist es).ordered[j]).name = n := by
  have he : (ofWorklist es).ordered[i] ∈ (ofWorklist es).ordered := List.getElem_mem hi
  obtain ⟨f, hf, rfl⟩ := exists_mem_ordered_of_mem_dependencies he hn
  have hstep : DependsOn es (ofWorklist es).ordered[i] f :=
    ⟨(mem_ordered_iff_placeable.mp hf).1, hn⟩
  have hdepth := depth_lt_of_dependsOn hes he hstep
  obtain ⟨j, hj, rfl⟩ := List.mem_iff_getElem.mp hf
  refine ⟨j, ?_, rfl⟩
  rcases Nat.lt_trichotomy j i with hlt | rfl | hgt
  · exact hlt
  · exact absurd hdepth (lt_irrefl _)
  · have hprecedes := List.pairwise_iff_getElem.mp (pairwise_ordered hes) i j hi hj hgt
    exact absurd hdepth hprecedes.depth_le.not_gt

theorem getElem_entities_mem_circular {i : Nat} (hi : i < (ofWorklist es).entities.length)
    (hle : (ofWorklist es).ordered.length ≤ i) :
    (ofWorklist es).entities[i] ∈ (ofWorklist es).circular := by
  simp only [entities, List.getElem_append_right hle]
  exact List.getElem_mem _

/-- Of the dependencies outside the circular group, an entity follows those that are names of
entities. -/
theorem exists_getElem_lt_or_unknown (hes : (es.map name).Nodup) {i : Nat}
    (hi : i < (ofWorklist es).entities.length)
    (hn : n ∈ (ofWorklist es).entities[i].dependencies) (hc : n ∉ (ofWorklist es).circularNames) :
    (∃ j, ∃ hj : j < i, ((ofWorklist es).entities[j]).name = n) ∨
      (∀ f ∈ es, f.name ≠ n) ∧ (ofWorklist es).ordered.length ≤ i := by
  by_cases hlt : i < (ofWorklist es).ordered.length
  · simp only [entities, List.getElem_append_left hlt] at hn
    obtain ⟨j, hj, hname⟩ := exists_getElem_ordered_lt hes hlt hn
    refine Or.inl ⟨j, hj, ?_⟩
    simpa only [entities, List.getElem_append_left (hj.trans hlt)] using hname
  have hle := Nat.le_of_not_lt hlt
  by_cases hknown : ∃ f ∈ es, f.name = n
  · obtain ⟨f, hf, rfl⟩ := hknown
    rcases List.mem_append.mp ((entities_perm es).mem_iff.mpr hf) with hordered | hcircular
    · obtain ⟨j, hj, rfl⟩ := List.mem_iff_getElem.mp hordered
      refine Or.inl ⟨j, hj.trans_le hle, ?_⟩
      simp only [entities, List.getElem_append_left hj]
    · exact absurd (mem_circularNames_iff.mpr ⟨f, hcircular, rfl⟩) hc
  · exact Or.inr ⟨fun f hf hname => hknown ⟨f, hf, hname⟩, hle⟩

/-- A name that no entity has is reported for each stalled entity that depends on it. -/
theorem exists_unknown_mem_diagnostics (he : e ∈ (ofWorklist es).circular)
    (hn : n ∈ e.dependencies) (hunknown : ∀ f ∈ es, f.name ≠ n) :
    ∃ unknown, n ∈ unknown ∧
      (⟨e.name ++ " references unknown " ++ String.intercalate ", " unknown, [e.name]⟩ :
        Diagnostic) ∈ (ofWorklist es).diagnostics := by
  have hnone : n ∉ es.map name := by
    intro hmem
    obtain ⟨f, hf, hname⟩ := List.mem_map.mp hmem
    exact hunknown f hf hname
  obtain ⟨d, hd, hreported⟩ := unknownDiagnostic?_of_dangles (⟨n, hn, hnone⟩ : Dangles es e)
  obtain ⟨unknown, hmissing, hmessage⟩ := hreported.message_eq
  refine ⟨unknown, (hmissing.mem_iff n).mpr ⟨hn, hnone⟩, ?_⟩
  rw [← hmessage, ← hreported.names_eq, diagnostics_of_circular_ne_nil (List.ne_nil_of_mem he)]
  exact List.mem_cons_of_mem _ (List.mem_filterMap.mpr ⟨e, he, hd⟩)

theorem all_synthesis (r : Resolution) :
    r.synthesis.all = r.entities.map (definition r.circularNames) := by
  rw [entities, List.map_append]
  rfl

end ServiceSchema.Resolution

namespace ServiceSchema.ServiceModel

open Resolution

variable {m : ServiceModel} {naming : Naming} {s : Synthesis}

theorem generate_eq_ok_iff :
    m.generate naming = .ok s ↔
      ((m.entities naming).map Entity.name).Nodup ∧
        s = (ofWorklist (m.entities naming)).synthesis := by
  have hdistinct : Names.firstRepeated [] ((m.entities naming).map Entity.name) = none ↔
      ((m.entities naming).map Entity.name).Nodup := by
    simp [Names.firstRepeated_eq_none_iff]
  rw [← hdistinct]
  unfold generate resolve
  dsimp only
  split
  · next name hrepeated => simp [Except.map, hrepeated]
  · next hnone => simp [Except.map, hnone, eq_comm]

/-- No definition uses a name before its definition.  An eager reference leads to an earlier
definition; only if no entity has its name does it not, and then it stands in the circular part and
a diagnostic about just this definition reports it.  A lazy reference leads to its own definition or
into the circular part. -/
theorem generate_scoped (h : m.generate naming = .ok s) (i : Nat) (hi : i < s.all.length) :
    (∀ n, s.all[i].schema.RefersTo n →
      (∃ j, ∃ hj : j < i, s.all[j].name = n) ∨
      ((∀ e ∈ m.entities naming, e.name ≠ n) ∧ s.definitions.length ≤ i ∧
        ∃ unknown, n ∈ unknown ∧
          (⟨s.all[i].name ++ " references unknown " ++ String.intercalate ", " unknown,
            [s.all[i].name]⟩ : Diagnostic) ∈
              (ofWorklist (m.entities naming)).diagnostics)) ∧
    (∀ n, s.all[i].schema.RefersLazilyTo n →
      (∃ d ∈ s.all, d.name = n) ∧ (n = s.all[i].name ∨ ∃ d ∈ s.circular, d.name = n)) := by
  obtain ⟨hes, rfl⟩ := generate_eq_ok_iff.mp h
  have hi' : i < (ofWorklist (m.entities naming)).entities.length := by
    simpa [all_synthesis] using hi
  simp only [all_synthesis, List.getElem_map]
  constructor
  · intro n href
    obtain ⟨hn, hc⟩ := Entity.mem_dependencies_of_refersTo href
    rcases exists_getElem_lt_or_unknown hes hi' hn hc with hearlier | ⟨hunknown, hle⟩
    · exact Or.inl hearlier
    · refine Or.inr ⟨hunknown, by simpa [synthesis] using hle, ?_⟩
      exact exists_unknown_mem_diagnostics (getElem_entities_mem_circular hi' hle) hn hunknown
  · intro n href
    rcases Entity.eq_or_mem_of_refersLazilyTo href with rfl | hmem
    · exact ⟨⟨_, List.mem_map_of_mem (List.getElem_mem hi'), rfl⟩, Or.inl rfl⟩
    · obtain ⟨f, hf, rfl⟩ := mem_circularNames_iff.mp hmem
      have hdefined : f.definition _ ∈ (ofWorklist (m.entities naming)).synthesis.circular :=
        List.mem_map_of_mem hf
      exact ⟨⟨_, List.mem_map_of_mem (List.mem_append_right _ hf), rfl⟩, Or.inr ⟨_, hdefined, rfl⟩⟩

/-- The schema of `Post` follows the one that it can refer to, and reports the other name. -/
theorem generate_scoped_of_unknown_name :
    let m : ServiceModel :=
      ⟨[⟨"Post", [.required "author" (.named "Ghost"), .required "topic" (.named "Topic")],
          none, []⟩,
        ⟨"Topic", [.required "parent" (.named "Topic")], none, []⟩], [], [], []⟩
    ∃ s, m.generate .pascal = .ok s ∧ ∃ hi : 1 < s.all.length,
      s.all[1].schema.RefersTo "Ghost" ∧ s.definitions.length ≤ 1 ∧
        ∃ unknown, "Ghost" ∈ unknown ∧
          (⟨s.all[1].name ++ " references unknown " ++ String.intercalate ", " unknown,
            [s.all[1].name]⟩ : Diagnostic) ∈ (ofWorklist (m.entities .pascal)).diagnostics := by
  intro m
  have hes : m.entities .pascal =
      [.record "Post" [.required "author" (.named "Ghost"), .required "topic" (.named "Topic")],
        .record "Topic" [.required "parent" (.named "Topic")]] := rfl
  obtain ⟨s, hok, hall⟩ : ∃ s, m.generate .pascal = .ok s ∧ s.all =
      [⟨"Topic", ⟨.object [⟨"parent", .lazyRef "Topic"⟩], []⟩⟩,
        ⟨"Post", ⟨.object [⟨"author", .ref "Ghost"⟩, ⟨"topic", .ref "Topic"⟩], []⟩⟩] := by
    refine ⟨_, generate_eq_ok_iff.mpr ⟨by decide, rfl⟩, ?_⟩
    have hresolution : ofWorklist (m.entities .pascal) =
        ⟨[m.types[1].entity], [m.types[0].entity]⟩ := by
      rw [hes]
      simp [m, ofWorklist, TypeDecl.entity, Placement.settle, Placement.layer, Placement.waiting,
        Entity.isReady, Entity.dependencies, Entity.members, Entity.record, Member.required,
        TypeRef.name?, Names.distinct, Names.insertDistinct, Entity.sortByName, Names.sortBy,
        Names.insertBy, -String.lt_iff_ltb]
    rw [hresolution]
    rfl
  have hi : 1 < s.all.length := by
    rw [hall]
    decide
  have href : s.all[1].schema.RefersTo "Ghost" := by
    simp only [hall]
    exact ⟨.ref "Ghost", .nested (by simp [Schema.nested, Schema.Base.nested]) (.self _), rfl⟩
  refine ⟨s, hok, hi, href, ?_⟩
  rcases (generate_scoped hok 1 hi).1 "Ghost" href with ⟨j, hj, hname⟩ | ⟨-, hle, hreported⟩
  · obtain rfl : j = 0 := by omega
    simp [hall] at hname
  · exact ⟨hle, hreported⟩

end ServiceSchema.ServiceModel
