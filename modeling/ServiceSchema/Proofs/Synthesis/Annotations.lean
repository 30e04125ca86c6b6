import ServiceSchema.Proofs.Emit.Lossless
import ServiceSchema.Proofs.Schema.Laziness
import ServiceSchema.Proofs.Schema.Mentions
import ServiceSchema.Proofs.Synthesis.Conservation
import ServiceSchema.Proofs.Synthesis.Extension
/-!
# Annotated declarations

The type of a schema cannot be inferred when its definition looks up a schema that is not declared
yet.  An ordered entity depends on nothing in the circular group, so its only lazy references are to
itself; it has one exactly if a member with a place in its schema has the entity as its type.  All
that an unannotated definition mentions is declared before it.
-/

namespace ServiceSchema

open Schema Emit

/-! ## Entities that refer to themselves -/

namespace Entity

variable {c : List String} {e : Entity} {n : String}

/-- The member has a place in the schema of the entity; the values of a map have none where the
declared members leave no room for them. -/
def Places (e : Entity) (p : Member) : Prop :=
  match e.kind with
  | .record r =>
    p ∈ r.members ∨ ∃ x, r.map = some x ∧ (p = x.key ∨ p = x.value ∧ ¬ r.DropsValues)
  | .parameterBag b => p ∈ b.members
  | .union u => p ∈ u.variants
  | .enum _ => False

/-- The type of a member with a place in the schema is the entity itself. -/
def RefersToItself (e : Entity) : Prop := ∃ p, e.Places p ∧ p.type.name? = some e.name

theorem places_iff_of_dropsValues {r : Record} {x : MapExtension} (hkind : e.kind = .record r)
    (hx : r.map = some x) (hdrops : r.DropsValues) (p : Member) :
    e.Places p ↔ p ∈ r.members ++ [x.key] := by
  simp [Places, hkind, hx, hdrops]

theorem places_iff_mem_members (hdrops : ∀ r, e.kind = .record r → ¬ r.DropsValues) (p : Member) :
    e.Places p ↔ p ∈ e.members := by
  obtain ⟨name, kind⟩ := e
  cases kind with
  | record r =>
      have hkept : ¬ r.DropsValues := hdrops r rfl
      cases hx : r.map with
      | none => simp [Places, members, hx]
      | some x => simp [Places, members, hx, hkept]
  | parameterBag b => exact Iff.rfl
  | union u => exact Iff.rfl
  | enum values => simp [Places, members]

/-- The schema of an entity mentions the types of the members that have a place in it. -/
theorem mentions_iff_places :
    (e.schema c).Mentions n ↔ ∃ p, e.Places p ∧ p.type.name? = some n := by
  by_cases hfull : ∃ r, e.kind = .record r ∧ r.DropsValues
  · obtain ⟨r, hkind, hdrops⟩ := hfull
    obtain ⟨x, hx, -⟩ := hdrops.2.1
    rw [mentions_iff_of_dropsValues hkind hx hdrops]
    exact exists_congr fun p => and_congr_left' (places_iff_of_dropsValues hkind hx hdrops p).symm
  · have hdrops : ∀ r, e.kind = .record r → ¬ r.DropsValues :=
      fun r hkind hr => hfull ⟨r, hkind, hr⟩
    have htypes : (e.schema c).Mentions n ↔ n ∈ e.typeNames :=
      ⟨mem_typeNames_of_mentions, mentions_of_mem_typeNames hdrops⟩
    rw [htypes, mem_typeNames]
    exact exists_congr fun p => and_congr_left' (places_iff_mem_members hdrops p).symm

/-- Without dependencies in the circular group, only references of the entity to itself are
lazy. -/
theorem eq_name_of_refersLazilyTo (hc : ∀ n ∈ e.dependencies, n ∉ c)
    (h : (e.schema c).RefersLazilyTo n) : n = e.name := by
  have htype : n ∈ e.typeNames := mem_typeNames_of_mentions (Or.inr h)
  rcases eq_or_mem_of_refersLazilyTo h with hself | hmem
  · exact hself
  · rcases mem_dependencies_or_eq_name htype with hdep | hself
    · exact absurd hmem (hc n hdep)
    · exact hself

theorem containsLazy_schema_iff (hc : ∀ n ∈ e.dependencies, n ∉ c) :
    (e.schema c).containsLazy = true ↔ e.RefersToItself := by
  have hself : (e.schema c).RefersLazilyTo e.name ↔ e.RefersToItself := by
    rw [RefersToItself, ← mentions_iff_places (c := c)]
    have heager : ¬ (e.schema c).RefersTo e.name := not_refersTo_of_eq_or_mem (Or.inl rfl)
    exact ⟨Or.inr, fun h => h.resolve_left heager⟩
  rw [containsLazy_iff, ← hself]
  constructor
  · rintro ⟨n, hn⟩
    rwa [eq_name_of_refersLazilyTo hc hn] at hn
  · exact fun h => ⟨e.name, h⟩

end Entity

/-! ## Declarations -/

namespace Emit

def declaredBefore (o : EmitOptions) (s : Synthesis) (i : Nat) : List String :=
  (s.all.take i).map fun d => o.identifier d.name

theorem declaredBefore_synthesis (o : EmitOptions) (r : Resolution) (i : Nat) :
    declaredBefore o r.synthesis i = (r.entities.take i).map fun e => o.identifier e.name := by
  rw [declaredBefore, Resolution.all_synthesis, ← List.map_take, List.map_map]
  rfl

end Emit

namespace Resolution

variable {es : List Entity} {e : Entity}

def annotates (r : Resolution) (d : Definition) : Bool :=
  r.circularNames.contains d.name || d.schema.containsLazy

theorem annotates_eq_of_mem_ordered (hes : (es.map Entity.name).Nodup)
    (he : e ∈ (ofWorklist es).ordered) (c : List String) :
    (ofWorklist es).annotates (e.definition c) = (e.schema c).containsLazy := by
  have hname : e.name ∉ (ofWorklist es).circularNames := name_notMem_circularNames hes he
  simp [annotates, Entity.definition, hname]

theorem annotates_of_mem_circular (he : e ∈ (ofWorklist es).circular) (c : List String) :
    (ofWorklist es).annotates (e.definition c) = true := by
  have hname : e.name ∈ (ofWorklist es).circularNames := mem_circularNames_iff.mpr ⟨e, he, rfl⟩
  simp [annotates, Entity.definition, hname]

theorem annotates_iff (hes : (es.map Entity.name).Nodup) (he : e ∈ (ofWorklist es).entities) :
    (ofWorklist es).annotates (e.definition (ofWorklist es).circularNames) = true ↔
      e ∈ (ofWorklist es).circular ∨ e.RefersToItself := by
  rcases List.mem_append.mp he with hordered | hcircular
  · have hc : ∀ n ∈ e.dependencies, n ∉ (ofWorklist es).circularNames :=
      fun n => notMem_circularNames_of_mem_dependencies hes hordered
    have hnot : e ∉ (ofWorklist es).circular := fun hcircular =>
      name_notMem_circularNames hes hordered (mem_circularNames_iff.mpr ⟨e, hcircular, rfl⟩)
    rw [annotates_eq_of_mem_ordered hes hordered, Entity.containsLazy_schema_iff hc]
    exact (or_iff_right hnot).symm
  · exact iff_of_true (annotates_of_mem_circular hcircular _) (Or.inl hcircular)

theorem moduleText_synthesis (hes : (es.map Entity.name).Nodup) (o : EmitOptions) :
    moduleText (ofWorklist es).synthesis o = header o ++ (ofWorklist es).synthesis.all.flatMap
      fun d => declaration o ((ofWorklist es).annotates d) d := by
  have hordered : ∀ d ∈ (ofWorklist es).synthesis.definitions,
      definition o false d = declaration o ((ofWorklist es).annotates d) d := by
    intro d hd
    obtain ⟨e, he, rfl⟩ := List.mem_map.mp hd
    rw [annotates_eq_of_mem_ordered hes he]
    exact definition_eq_declaration o false _
  have hcircular : ∀ d ∈ (ofWorklist es).synthesis.circular,
      definition o true d = declaration o ((ofWorklist es).annotates d) d := by
    intro d hd
    obtain ⟨e, he, rfl⟩ := List.mem_map.mp hd
    rw [annotates_of_mem_circular he]
    exact definition_eq_declaration o true _
  rw [moduleText, List.flatMap_congr hordered, List.flatMap_congr hcircular, List.append_assoc,
    ← List.flatMap_append]
  rfl

theorem definition_mem_circular_iff (hes : (es.map Entity.name).Nodup)
    (he : e ∈ (ofWorklist es).entities) :
    e.definition (ofWorklist es).circularNames ∈ (ofWorklist es).synthesis.circular ↔
      e ∈ (ofWorklist es).circular := by
  constructor
  · intro hd
    obtain ⟨f, hf, hdefinition⟩ := List.mem_map.mp hd
    have hname : f.name = e.name := congrArg Definition.name hdefinition
    have hentity : f = e :=
      Entity.eq_of_name_eq (nodup_map_name_entities hes) (List.mem_append_right _ hf) he hname
    rwa [← hentity]
  · exact fun hcircular => List.mem_map_of_mem hcircular

/-- What a definition without annotation mentions is the name of an earlier entity. -/
theorem exists_mem_take_of_not_annotated (hes : (es.map Entity.name).Nodup) {n : String} {i : Nat}
    (hi : i < (ofWorklist es).entities.length)
    (hplain : (ofWorklist es).annotates
      ((ofWorklist es).entities[i].definition (ofWorklist es).circularNames) = false)
    (h : ((ofWorklist es).entities[i].schema (ofWorklist es).circularNames).Mentions n) :
    n ≠ (ofWorklist es).entities[i].name ∧ ∃ e ∈ (ofWorklist es).entities.take i, e.name = n := by
  have hordered : i < (ofWorklist es).ordered.length := by
    by_contra hle
    have hcircular := getElem_entities_mem_circular hi (Nat.le_of_not_lt hle)
    rw [annotates_of_mem_circular hcircular] at hplain
    exact Bool.noConfusion hplain
  have hsearch : ((ofWorklist es).entities[i].schema (ofWorklist es).circularNames).containsLazy =
      false := (Bool.or_eq_false_iff.mp hplain).2
  have heager : ((ofWorklist es).entities[i].schema (ofWorklist es).circularNames).RefersTo n := by
    apply h.resolve_right
    intro hlazy
    rw [containsLazy_iff.mpr ⟨n, hlazy⟩] at hsearch
    exact Bool.noConfusion hsearch
  obtain ⟨hn, hc⟩ := Entity.mem_dependencies_of_refersTo heager
  have hself : n ≠ (ofWorklist es).entities[i].name := (Entity.mem_dependencies.mp hn).1
  rcases exists_getElem_lt_or_unknown hes hi hn hc with ⟨j, hj, hname⟩ | ⟨-, hle⟩
  · refine ⟨hself, _, List.mem_take_iff_getElem.mpr ⟨j, ?_, rfl⟩, hname⟩
    exact Nat.lt_min.mpr ⟨hj, hj.trans hi⟩
  · exact absurd hordered hle.not_gt

end Resolution

namespace ServiceModel

open Resolution

variable {m : ServiceModel} {naming : Naming} {s : Synthesis}

/-- A module annotates the declaration of an entity exactly if the entity is in the circular part or
refers to itself by a member that has a place in its schema.  A definition without annotation
mentions only identifiers that are declared before it, and so not its own. -/
theorem generate_annotates (h : m.generate naming = .ok s) (o : EmitOptions) :
    ∃ annotated : Definition → Bool,
      moduleText s o = header o ++ s.all.flatMap (fun d => declaration o (annotated d) d) ∧
      (∀ d ∈ s.all, ∃ e ∈ m.entities naming,
        d = e.definition (s.circular.map Definition.name) ∧
          (annotated d = true ↔ d ∈ s.circular ∨ e.RefersToItself)) ∧
      ∀ i (hi : i < s.all.length), annotated s.all[i] = false →
        ∀ n, s.all[i].schema.Mentions n →
          o.identifier n ∈ declaredBefore o s i ∧
            o.identifier n ≠ o.identifier s.all[i].name := by
  obtain ⟨hes, rfl⟩ := generate_eq_ok_iff.mp h
  refine ⟨(ofWorklist (m.entities naming)).annotates, moduleText_synthesis hes o, ?_, ?_⟩
  · intro d hd
    rw [all_synthesis] at hd
    obtain ⟨e, he, rfl⟩ := List.mem_map.mp hd
    refine ⟨e, (entities_perm _).mem_iff.mp he, ?_, ?_⟩
    · rw [Entity.definition, Entity.definition, schema_circularNames, map_name_circular_synthesis]
    · rw [annotates_iff hes he, definition_mem_circular_iff hes he]
  · intro i hi hplain n hmentions
    have hi' : i < (ofWorklist (m.entities naming)).entities.length := by
      simpa [all_synthesis] using hi
    simp only [all_synthesis, List.getElem_map] at hplain hmentions ⊢
    obtain ⟨hself, e, he, rfl⟩ := exists_mem_take_of_not_annotated hes hi' hplain hmentions
    refine ⟨?_, fun hsame => hself (identifier_injective o hsame)⟩
    rw [declaredBefore_synthesis]
    exact List.mem_map_of_mem he

/-- `Home` refers to itself only by values for which it has no room, `Tree` by values that it keeps,
and `Post` is in the circular part as it refers to an unknown name, though eagerly. -/
theorem generate_annotates_of_dropped_values :
    let text : Member := .required "" (.primitive .string)
    let home : Record := ⟨[.required "owner" (.primitive .string)],
      some ⟨text, .required "" (.named "Home"), ["owner"]⟩, [.keys ⟨none, some 1⟩]⟩
    let tree : Record := ⟨[], some ⟨text, .required "" (.named "Tree"), []⟩, []⟩
    let post : Record := ⟨[.required "author" (.named "Ghost")], none, []⟩
    let m : ServiceModel := ⟨[⟨"Post", post.members, post.map, post.rules⟩,
      ⟨"Home", home.members, home.map, home.rules⟩,
      ⟨"Tree", tree.members, tree.map, tree.rules⟩], [], [], []⟩
    let o : EmitOptions := .standard
    ∃ s, m.generate .pascal = .ok s ∧ ∃ home tree post,
      s.all.map Definition.name = ["Home", "Tree", "Post"] ∧ s.all = [home, tree, post] ∧
        moduleText s o = header o ++
          (declaration o false home ++ (declaration o true tree ++ declaration o true post)) := by
  intro text home tree post m o
  have hresolution : ofWorklist (m.entities .pascal) =
      ⟨[.map "Home" home, .map "Tree" tree], [.map "Post" post]⟩ := by
    simp [m, ServiceModel.entities, ofWorklist, TypeDecl.entity, Placement.settle, Placement.layer,
      Placement.waiting, Entity.isReady, Entity.dependencies, Entity.members, Entity.map,
      Member.required, TypeRef.name?, Names.distinct, Names.insertDistinct, Entity.sortByName,
      Names.sortBy, Names.insertBy, home, tree, post, text, -String.lt_iff_ltb]
  have hes : ((m.entities .pascal).map Entity.name).Nodup := by decide
  have hgenerate : m.generate .pascal = .ok (ofWorklist (m.entities .pascal)).synthesis :=
    generate_eq_ok_iff.mpr ⟨hes, rfl⟩
  rw [hresolution] at hgenerate
  obtain ⟨annotated, htext, hannotated, -⟩ := generate_annotates hgenerate o
  have hiff : ∀ e ∈ [Entity.map "Home" home, .map "Tree" tree, .map "Post" post],
      annotated (e.definition ["Post"]) = true ↔
        e.definition ["Post"] ∈ [(Entity.map "Post" post).definition ["Post"]] ∨
          e.RefersToItself := by
    intro e he
    obtain ⟨f, hf, hdefinition, hiff⟩ := hannotated (e.definition ["Post"]) (List.mem_map_of_mem he)
    have hmem : e ∈ m.entities .pascal := by
      rw [← (entities_perm (m.entities .pascal)).mem_iff, hresolution]
      exact he
    have hname : f.name = e.name := (congrArg Definition.name hdefinition).symm
    rwa [Entity.eq_of_name_eq hes hf hmem hname] at hiff
  have hhome : annotated ((Entity.map "Home" home).definition ["Post"]) = false := by
    rw [Bool.eq_false_iff, ne_eq, hiff _ (by simp)]
    rintro (hcircular | ⟨p, hp, htype⟩)
    · exact absurd (congrArg Definition.name (List.mem_singleton.mp hcircular)) (by decide)
    · have hdrops : home.DropsValues :=
        ⟨List.cons_ne_nil _ _, ⟨_, rfl, by decide⟩, 1, rfl, by decide⟩
      rw [Entity.places_iff_of_dropsValues rfl rfl hdrops] at hp
      have hprimitive : ∀ q ∈ home.members ++ [text], q.type.name? = none := by decide
      rw [hprimitive p hp] at htype
      cases htype
  have htree : annotated ((Entity.map "Tree" tree).definition ["Post"]) = true := by
    rw [hiff _ (by simp)]
    exact Or.inr ⟨_, Or.inr ⟨_, rfl, Or.inr ⟨rfl, fun hdrops => hdrops.1 rfl⟩⟩, rfl⟩
  have hpost : annotated ((Entity.map "Post" post).definition ["Post"]) = true := by
    rw [hiff _ (by simp)]
    exact Or.inl (List.mem_singleton_self _)
  have hall : (⟨[.map "Home" home, .map "Tree" tree], [.map "Post" post]⟩ :
      Resolution).synthesis.all = [(Entity.map "Home" home).definition ["Post"],
        (Entity.map "Tree" tree).definition ["Post"],
        (Entity.map "Post" post).definition ["Post"]] := rfl
  rw [hall, List.flatMap_cons, List.flatMap_cons, List.flatMap_singleton, hhome, htree,
    hpost] at htext
  exact ⟨_, hgenerate, _, _, _, rfl, hall, htext⟩

end ServiceModel

end ServiceSchema
