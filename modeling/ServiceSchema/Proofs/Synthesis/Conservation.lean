import ServiceSchema.Proofs.Synthesis.Scoping
/-!
# Conservation of names

The names of a worklist can be read off the declarations.  Schemas are generated exactly when these
names are distinct, otherwise the first repeated one is reported.  Resolution only permutes the
worklist, so every entity has one definition, which a look-up by its name finds.
-/

namespace ServiceSchema

def Interface.bagNames (naming : Naming) (i : Interface) : List String :=
  (i.methods.filter fun method => !method.params.isEmpty).map fun method =>
    naming.parameterBag i.name method.name

def ServiceModel.entityNames (m : ServiceModel) (naming : Naming) : List String :=
  m.types.map TypeDecl.name ++ m.interfaces.flatMap (Interface.bagNames naming) ++
    m.unions.map UnionDecl.name ++ m.enums.map EnumDecl.name

theorem Interface.map_name_entities (naming : Naming) (i : Interface) :
    (i.entities naming).map Entity.name = i.bagNames naming := by
  have hmethod : ∀ method : Method, (Method.entity? naming i.name method).map Entity.name =
      if !method.params.isEmpty then some (naming.parameterBag i.name method.name) else none := by
    intro method
    unfold Method.entity?
    cases method.params.isEmpty <;> rfl
  rw [entities, List.map_filterMap, bagNames, ← List.filterMap_eq_map, List.filterMap_filter]
  exact List.filterMap_congr fun method _ => hmethod method

theorem ServiceModel.map_name_entities (m : ServiceModel) (naming : Naming) :
    (m.entities naming).map Entity.name = m.entityNames naming := by
  simp only [entities, entityNames, List.map_append, List.map_map, List.map_flatMap,
    Interface.map_name_entities]
  rfl

theorem Synthesis.exists_mem_all_of_get? {s : Synthesis} {n : String} {t : Schema}
    (h : s.get? n = some t) : ∃ d ∈ s.all, d.name = n ∧ d.schema = t := by
  obtain ⟨d, hd, rfl⟩ := Option.map_eq_some_iff.mp h
  have hname := List.find?_some hd
  exact ⟨d, List.mem_of_find?_eq_some hd, beq_iff_eq.mp hname, rfl⟩

namespace Resolution

variable {es : List Entity} {e : Entity}

theorem map_name_all_synthesis (r : Resolution) :
    r.synthesis.all.map Definition.name = r.entities.map Entity.name := by
  rw [all_synthesis, List.map_map]
  rfl

theorem map_name_circular_synthesis (r : Resolution) :
    r.synthesis.circular.map Definition.name = r.circular.map Entity.name := by
  rw [synthesis, List.map_map]
  rfl

/-- The order of the circular group and its repetitions do not show in a schema. -/
theorem schema_circularNames (r : Resolution) (e : Entity) :
    e.schema r.circularNames = e.schema (r.circular.map Entity.name) :=
  Entity.schema_congr fun _ _ => by rw [circularNames, Names.mem_distinct]

theorem get?_synthesis (hes : (es.map Entity.name).Nodup) (he : e ∈ es) :
    (ofWorklist es).synthesis.get? e.name =
      some (e.schema ((ofWorklist es).circular.map Entity.name)) := by
  have hfind : (ofWorklist es).entities.find? (·.name == e.name) = some e :=
    Names.find?_name_eq_some (nodup_map_name_entities hes) ((entities_perm es).mem_iff.mpr he)
  rw [Synthesis.get?, all_synthesis, List.find?_map]
  change Option.map _ (Option.map _ ((ofWorklist es).entities.find? (·.name == e.name))) = _
  rw [hfind, Option.map_some, Option.map_some, ← schema_circularNames]
  rfl

theorem get?_synthesis_eq_none {r : Resolution} {n : String}
    (hn : n ∉ r.entities.map Entity.name) : r.synthesis.get? n = none := by
  rw [Synthesis.get?, Option.map_eq_none_iff, List.find?_eq_none]
  intro d hd hname
  have hmem : d.name ∈ r.synthesis.all.map Definition.name := List.mem_map_of_mem hd
  rw [map_name_all_synthesis, beq_iff_eq.mp hname] at hmem
  exact hn hmem

end Resolution

namespace ServiceModel

open Resolution

variable {m : ServiceModel} {naming : Naming}

/-- Generation fails exactly with the first name that the declarations repeat. -/
theorem generate_eq_error_iff_repeated {f : GenerationError} :
    m.generate naming = .error f ↔
      ∃ before n after, m.entityNames naming = before ++ n :: after ∧ before.Nodup ∧
        n ∈ before ∧ f = .duplicateName n := by
  have hrepeated : ∀ n, Names.firstRepeated [] (m.entityNames naming) = some n ↔
      ∃ before after, m.entityNames naming = before ++ n :: after ∧ before.Nodup ∧
        n ∈ before := by
    intro n
    simp [Names.firstRepeated_eq_some_iff]
  unfold generate resolve
  dsimp only
  rw [map_name_entities]
  split
  · next name hname =>
      simp only [Except.map, Except.error.injEq]
      constructor
      · rintro rfl
        obtain ⟨before, after, hsplit, hnodup, hmem⟩ := (hrepeated name).mp hname
        exact ⟨before, name, after, hsplit, hnodup, hmem, rfl⟩
      · rintro ⟨before, n, after, hsplit, hnodup, hmem, rfl⟩
        rw [(hrepeated n).mpr ⟨before, after, hsplit, hnodup, hmem⟩] at hname
        rw [Option.some.inj hname]
  · next hnone =>
      simp only [Except.map, reduceCtorEq, false_iff]
      rintro ⟨before, n, after, hsplit, hnodup, hmem, -⟩
      rw [(hrepeated n).mpr ⟨before, after, hsplit, hnodup, hmem⟩] at hnone
      cases hnone

/-- Schemas are generated exactly when no name is declared twice, and then each entity has exactly
one definition, which is found under its name; otherwise the first repeated name is reported. -/
theorem generate_conserves (m : ServiceModel) (naming : Naming) :
    ((∃ s, m.generate naming = .ok s) ↔ (m.entityNames naming).Nodup) ∧
    (∀ f, m.generate naming = .error f ↔
      ∃ before n after, m.entityNames naming = before ++ n :: after ∧ before.Nodup ∧
        n ∈ before ∧ f = .duplicateName n) ∧
    ∀ s, m.generate naming = .ok s →
      (s.all.map Definition.name).Nodup ∧
      (s.all.map Definition.name).Perm (m.entityNames naming) ∧
      (∀ e ∈ m.entities naming,
        s.get? e.name = some (e.schema (s.circular.map Definition.name))) ∧
      ∀ n, n ∉ m.entityNames naming → s.get? n = none := by
  refine ⟨?_, fun f => generate_eq_error_iff_repeated, ?_⟩
  · simp [generate_eq_ok_iff, map_name_entities]
  · intro s hs
    obtain ⟨hes, rfl⟩ := generate_eq_ok_iff.mp hs
    have hperm : ((ofWorklist (m.entities naming)).entities.map Entity.name).Perm
        (m.entityNames naming) := by
      rw [← map_name_entities]
      exact (entities_perm _).map _
    rw [map_name_all_synthesis, map_name_circular_synthesis]
    refine ⟨?_, hperm, fun e he => get?_synthesis hes he, ?_⟩
    · rw [hperm.nodup_iff, ← map_name_entities]
      exact hes
    · exact fun n hn => get?_synthesis_eq_none (hperm.mem_iff.not.mpr hn)

/-- The name of a parameter bag is also declared: the union comes after it and is reported.  Under
another name all entities are found, a cycle and what depends on it with lazy references. -/
theorem generate_conserves_of_declared_bag_name :
    let a : TypeDecl := ⟨"A", [.required "b" (.named "B")], none, []⟩
    let b : TypeDecl := ⟨"B", [.required "a" (.named "A")], none, []⟩
    let pets : Interface := ⟨"pets", [⟨"get", [.required "id" (.named "A")], []⟩, ⟨"all", [], []⟩]⟩
    let union : String → UnionDecl := fun n => ⟨n, [.required "a" (.named "C")], none⟩
    let c : EnumDecl := ⟨"C", ["x", "y"]⟩
    let m : ServiceModel := ⟨[a, b], [pets], [union "PetsGetParams"], [c]⟩
    let m' : ServiceModel := ⟨[a, b], [pets], [union "Pet"], [c]⟩
    m.generate .pascal = .error (.duplicateName "PetsGetParams") ∧
      ∃ s, m'.generate .pascal = .ok s ∧ ["A", "B", "PetsGetParams", "Pet", "C"].Perm
        (s.all.map Definition.name) ∧ s.get? "PetsAllParams" = none := by
  intro a b pets union c m m'
  have hnames : m.entityNames .pascal = ["A", "B", "PetsGetParams", "PetsGetParams", "C"] := by
    decide +kernel
  have hnames' : m'.entityNames .pascal = ["A", "B", "PetsGetParams", "Pet", "C"] := by
    decide +kernel
  refine ⟨((generate_conserves m .pascal).2.1 _).mpr
    ⟨["A", "B", "PetsGetParams"], _, ["C"], hnames, by decide, by decide, rfl⟩, ?_⟩
  obtain ⟨s, hs⟩ := (generate_conserves m' .pascal).1.mpr (by rw [hnames']; decide)
  obtain ⟨-, hperm, -, hnone⟩ := (generate_conserves m' .pascal).2.2 s hs
  rw [hnames'] at hperm hnone
  exact ⟨s, hs, hperm.symm, hnone _ (by decide)⟩

end ServiceModel

end ServiceSchema
