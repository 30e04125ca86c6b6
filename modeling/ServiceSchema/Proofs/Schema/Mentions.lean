import ServiceSchema.Proofs.Schema.References
/-!
# The names that a schema mentions

The resolution of a worklist goes by the names that the members of an entity have as types.  The
schema of the entity mentions the same names, with one exception: where the bound on the keys of a
record leaves no room beside its declared members, the values of its map have no place in the
schema.  A name is looked up lazily when it is the entity's own or one of the circular group.
-/

namespace ServiceSchema

open Schema

def Schema.Mentions (s : Schema) (n : String) : Prop := s.RefersTo n ∨ s.RefersLazilyTo n

def Entity.typeNames (e : Entity) : List String := e.members.filterMap (·.type.name?)

/-- The declared members of a record with a map take up all the keys that it may have: none of the
required keys is added to them, and the bound on the keys is not above their number. -/
def Record.DropsValues (r : Record) : Prop :=
  r.members ≠ [] ∧ (∃ x, r.map = some x ∧ ∀ k ∈ x.requiredKeys, k ∈ r.declaredNames) ∧
    ∃ bound, r.keyBounds.max = some bound ∧ bound.toNat ≤ r.members.length

namespace Member

variable {sc : Scope} {role : Role} {m : Member} {n : String} {s : Schema}

theorem mentions_of_within (h : Within (m.schema sc role) s) (hn : m.type.name? = some n) :
    s.Mentions n := by
  have hbase : (m.schema sc role).base = (sc.reference n).base := base_schema hn
  unfold Scope.reference at hbase
  split at hbase
  · exact Or.inr ⟨_, h, hbase⟩
  · exact Or.inl ⟨_, h, hbase⟩

theorem isPrimitive_eq_false (hn : m.type.name? = some n) : m.type.isPrimitive = false := by
  cases htype : m.type with
  | primitive p => simp [htype, TypeRef.name?] at hn
  | named name => rfl

end Member

theorem Schema.within_of_mem_base {s t : Schema} (h : t ∈ s.base.nested) : Within t s :=
  .nested (List.mem_append_left _ h) (.self t)

theorem Schema.within_of_mem_op {s t : Schema} {op : Op} (hop : op ∈ s.ops) (h : t ∈ op.nested) :
    Within t s :=
  .nested (List.mem_append_right _ (List.mem_flatMap.mpr ⟨op, hop, h⟩)) (.self t)

/-! ## Records -/

namespace Record

variable {sc : Scope} {r : Record} {m : Member} {x : MapExtension}

theorem addedKeys_eq_nil_iff (hx : r.map = some x) :
    r.addedKeys = [] ↔ ∀ k ∈ x.requiredKeys, k ∈ r.declaredNames := by
  simp [addedKeys, hx, List.filter_eq_nil_iff]

theorem hasRoom_eq_false_iff (hadded : r.addedKeys = []) :
    r.hasRoom = false ↔ ∃ bound, r.keyBounds.max = some bound ∧ bound.toNat ≤ r.members.length := by
  have hlength : r.knownKeys.length = r.members.length := by
    simp [knownKeys, hadded, declaredNames]
  rw [hasRoom, hlength]
  cases r.keyBounds.max <;> simp

theorem knownKeys_eq_nil_iff : r.knownKeys = [] ↔ r.members = [] ∧ r.addedKeys = [] := by
  simp [knownKeys, declaredNames]

theorem dropsValues_iff (hx : r.map = some x) :
    r.DropsValues ↔ r.knownKeys ≠ [] ∧ r.addedKeys = [] ∧ r.hasRoom = false := by
  have hmap : (∃ y, r.map = some y ∧ ∀ k ∈ y.requiredKeys, k ∈ r.declaredNames) ↔
      r.addedKeys = [] := by
    rw [addedKeys_eq_nil_iff hx]
    simp [hx]
  rw [DropsValues, hmap]
  constructor
  · rintro ⟨hmembers, hadded, hbound⟩
    refine ⟨?_, hadded, (hasRoom_eq_false_iff hadded).mpr hbound⟩
    exact fun hnil => hmembers (knownKeys_eq_nil_iff.mp hnil).1
  · rintro ⟨hknown, hadded, hroom⟩
    refine ⟨?_, hadded, (hasRoom_eq_false_iff hadded).mp hroom⟩
    exact fun hnil => hknown (knownKeys_eq_nil_iff.mpr ⟨hnil, hadded⟩)

theorem base_of_knownKeys (h : r.knownKeys ≠ []) : (r.schema sc).base = .object (r.fields sc) := by
  change r.base sc = _
  rw [base, List.isEmpty_eq_false_iff.mpr h, if_neg Bool.false_ne_true]

theorem within_of_mem_fields {f : Field} (hknown : r.knownKeys ≠ []) (h : f ∈ r.fields sc) :
    Within f.schema (r.schema sc) := by
  apply within_of_mem_base
  rw [base_of_knownKeys hknown]
  exact List.mem_map_of_mem h

theorem within_declared (hm : m ∈ r.members) : Within (m.schema sc .field) (r.schema sc) := by
  have hknown : r.knownKeys ≠ [] := fun hnil =>
    List.ne_nil_of_mem hm (knownKeys_eq_nil_iff.mp hnil).1
  have hfield : (⟨m.name, m.schema sc .field⟩ : Field) ∈ r.fields sc :=
    List.mem_append_left _ (List.mem_map_of_mem hm)
  exact within_of_mem_fields hknown hfield

theorem within_key (hx : r.map = some x) (hkey : x.key.type.isPrimitive = false) :
    Within (x.key.schema sc .mapKey) (r.schema sc) := by
  have hcheck : .keyCheck (x.key.schema sc .mapKey) r.knownKeys ∈ r.keyCheckOps sc :=
    mem_keyCheckOps_iff.mpr ⟨x, hx, Or.inr hkey, rfl⟩
  exact within_of_mem_op (List.mem_append_right _ hcheck) List.mem_cons_self

theorem within_value (hx : r.map = some x) (h : ¬ r.DropsValues) :
    Within (x.value.schema sc .mapValue) (r.schema sc) := by
  rw [dropsValues_iff hx] at h
  by_cases hknown : r.knownKeys = []
  · -- Without fields the values are those of the whole record.
    apply within_of_mem_base
    change _ ∈ (r.base sc).nested
    rw [base, hknown, List.isEmpty_nil, if_pos rfl, valueSchema, hx]
    exact List.mem_cons_self
  by_cases hadded : r.addedKeys = []
  · have hroom : r.hasRoom = true := by
      rw [← Bool.not_eq_false]
      exact fun hroom => h ⟨hknown, hadded, hroom⟩
    have hcatchall : .catchall (x.value.schema sc .mapValue) ∈ r.catchallOps sc :=
      mem_catchallOps_iff.mpr ⟨x, hx, hknown, hroom, rfl⟩
    exact within_of_mem_op (mem_ops_schema_iff.mpr (Or.inl hcatchall)) List.mem_cons_self
  · obtain ⟨k, hk⟩ := List.exists_mem_of_ne_nil _ hadded
    have hfield : (⟨k, x.value.schema sc .mapValue⟩ : Field) ∈ r.fields sc := by
      refine List.mem_append_right _ ?_
      rw [addedFields, hx]
      exact List.mem_map_of_mem hk
    exact within_of_mem_fields hknown hfield

/-- What a record mentions that has no room for the values of its map. -/
theorem exists_of_mentions {n : String} (hx : r.map = some x) (hdrops : r.DropsValues)
    (h : (r.schema sc).Mentions n) : ∃ m ∈ r.members ++ [x.key], m.type.name? = some n := by
  have htarget : ∃ t, Within t (r.schema sc) ∧ t.base.target? = some n := by
    rcases h with ⟨t, ht, hbase⟩ | ⟨t, ht, hbase⟩
    · exact ⟨t, ht, by rw [hbase]; rfl⟩
    · exact ⟨t, ht, by rw [hbase]; rfl⟩
  obtain ⟨t, hwithin, ht⟩ := htarget
  have hmember : ∀ m : Member, ∀ role, Within t (m.schema sc role) → m.type.name? = some n := by
    intro m role hm
    rw [Member.eq_of_within_schema hm, Member.target?_schema] at ht
    exact ht
  cases hwithin with
  | self =>
      have hnone : (r.schema sc).base.target? = none := by
        rw [base_of_knownKeys ((dropsValues_iff hx).mp hdrops).1]
        rfl
      rw [hnone] at ht
      cases ht
  | nested hu hwithin =>
      rcases cases_of_mem_nested hu with ⟨m, hm, rfl⟩ | ⟨y, hy, rfl⟩ | ⟨y, hy, hplace, -⟩ | rfl
      · exact ⟨m, List.mem_append_left _ hm, hmember m _ hwithin⟩
      · obtain rfl : x = y := Option.some.inj (hx.symm.trans hy)
        exact ⟨x.key, List.mem_append_right _ List.mem_cons_self, hmember _ _ hwithin⟩
      · obtain ⟨hknown, hadded, hroom⟩ := (dropsValues_iff hx).mp hdrops
        rcases hplace with hnil | hsome | hleft
        · exact absurd hnil hknown
        · exact absurd hadded hsome
        · exact absurd hroom (by simp [hleft])
      · obtain rfl := hwithin.eq_of_nested_eq_nil rfl
        cases ht

end Record

namespace Union

variable {sc : Scope} {u : Union} {m : Member}

theorem shape_of_mem (hm : m ∈ u.variants) (htype : m.type.isPrimitive = false) :
    u.shape = .alias m ∨ u.shape = .mixed := by
  have hnot : u.variants.all (·.type.isPrimitive) = false :=
    List.all_eq_false.mpr ⟨m, hm, by simp [htype]⟩
  unfold shape
  split
  · next hnil =>
      rw [hnil] at hm
      exact absurd hm List.not_mem_nil
  · next only honly =>
      rw [honly, List.mem_singleton] at hm
      rw [← hm, htype, if_neg Bool.false_ne_true]
      exact Or.inl rfl
  · rw [hnot, if_neg Bool.false_ne_true]
    exact Or.inr rfl

theorem within_variant (hm : m ∈ u.variants) (htype : m.type.isPrimitive = false) :
    Within (m.schema sc .variant) (u.schema sc) := by
  have hmem : m.schema sc .variant ∈ u.variants.map (·.schema sc .variant) :=
    List.mem_map_of_mem hm
  unfold schema
  rcases shape_of_mem hm htype with hshape | hshape
  · rw [hshape]
    exact .self _
  · rw [hshape]
    cases u.discriminator with
    | none => exact within_of_mem_base hmem
    | some d => exact within_of_mem_base hmem

end Union

namespace Entity

variable {c : List String} {e : Entity} {n : String}

theorem mem_typeNames : n ∈ e.typeNames ↔ ∃ m ∈ e.members, m.type.name? = some n :=
  List.mem_filterMap

theorem mem_dependencies_or_eq_name (hn : n ∈ e.typeNames) : n ∈ e.dependencies ∨ n = e.name := by
  by_cases hself : n = e.name
  · exact Or.inr hself
  · exact Or.inl (mem_dependencies.mpr ⟨hself, mem_typeNames.mp hn⟩)

theorem mem_typeNames_of_mentions (h : (e.schema c).Mentions n) : n ∈ e.typeNames := by
  rcases h with ⟨t, hwithin, hbase⟩ | ⟨t, hwithin, hbase⟩
  all_goals
    obtain ⟨m, hm, role, rfl⟩ := fromMember_of_within hwithin (n := n) (by rw [hbase]; rfl)
    exact mem_typeNames.mpr ⟨m, hm, Member.name?_of_base_eq hbase rfl⟩

/-- Unless the values of its map are left out, an entity mentions all the names that its members
have as types. -/
theorem mentions_of_mem_typeNames (hdrops : ∀ r, e.kind = .record r → ¬ r.DropsValues)
    (hn : n ∈ e.typeNames) : (e.schema c).Mentions n := by
  obtain ⟨m, hm, hname⟩ := mem_typeNames.mp hn
  suffices h : ∃ role, Within (m.schema ⟨e.name, c⟩ role) (e.schema c) by
    obtain ⟨role, hwithin⟩ := h
    exact Member.mentions_of_within hwithin hname
  have htype := Member.isPrimitive_eq_false hname
  obtain ⟨name, kind⟩ := e
  cases kind with
  | record r =>
      rcases List.mem_append.mp hm with hdeclared | hmap
      · exact ⟨.field, Record.within_declared hdeclared⟩
      · cases hx : r.map with
        | none =>
            rw [hx] at hmap
            exact absurd hmap List.not_mem_nil
        | some x =>
            rw [hx] at hmap
            rcases List.mem_pair.mp hmap with rfl | rfl
            · exact ⟨.mapKey, Record.within_key hx htype⟩
            · exact ⟨.mapValue, Record.within_value hx (hdrops r rfl)⟩
  | parameterBag b =>
      have hfield : m.schema ⟨name, c⟩ .field ∈ (b.schema ⟨name, c⟩).base.nested := by
        simp only [ParameterBag.schema, ofBase, Base.nested, List.map_map]
        exact List.mem_map_of_mem (f := fun m => m.schema ⟨name, c⟩ .field) hm
      exact ⟨.field, within_of_mem_base hfield⟩
  | union u => exact ⟨.variant, Union.within_variant hm htype⟩
  | enum values => exact absurd hm List.not_mem_nil

/-- A record without room for the values of its map mentions what it declares, and the key. -/
theorem mentions_iff_of_dropsValues {r : Record} {x : MapExtension} (hkind : e.kind = .record r)
    (hx : r.map = some x) (hdrops : r.DropsValues) :
    (e.schema c).Mentions n ↔ ∃ m ∈ r.members ++ [x.key], m.type.name? = some n := by
  obtain ⟨name, kind⟩ := e
  cases hkind
  refine ⟨Record.exists_of_mentions hx hdrops, ?_⟩
  rintro ⟨m, hm, hn⟩
  rcases List.mem_append.mp hm with hdeclared | hkey
  · exact Member.mentions_of_within (Record.within_declared hdeclared) hn
  · obtain rfl := List.mem_singleton.mp hkey
    have htype := Member.isPrimitive_eq_false hn
    exact Member.mentions_of_within (Record.within_key hx htype) hn

theorem not_refersTo_of_eq_or_mem (h : n = e.name ∨ n ∈ c) : ¬ (e.schema c).RefersTo n := by
  intro href
  obtain ⟨hdep, hc⟩ := mem_dependencies_of_refersTo href
  rcases h with rfl | hmem
  · exact name_notMem_dependencies e hdep
  · exact hc hmem

/-- The names that the schema of an entity mentions are those that its members have as types: its
dependencies, and perhaps its own.  Only a record without room for the values of its map leaves out
the names that just the values have.  The entity's own name and those of the circular group are
looked up lazily, all others are not. -/
theorem schema_mentions (c : List String) (e : Entity) :
    (∀ n, (e.schema c).Mentions n → n ∈ e.typeNames) ∧
    (∀ n, n ∈ e.typeNames → n ∈ e.dependencies ∨ n = e.name) ∧
    (∀ n ∈ e.dependencies, n ∈ e.typeNames) ∧
    ((∀ r, e.kind = .record r → ¬ r.DropsValues) →
      ∀ n, (e.schema c).Mentions n ↔ n ∈ e.typeNames) ∧
    (∀ r x, e.kind = .record r → r.map = some x → r.DropsValues →
      ∀ n, (e.schema c).Mentions n ↔ ∃ m ∈ r.members ++ [x.key], m.type.name? = some n) ∧
    ∀ n, (e.schema c).Mentions n →
      ((n = e.name ∨ n ∈ c) → (e.schema c).RefersLazilyTo n ∧ ¬ (e.schema c).RefersTo n) ∧
      (¬ (n = e.name ∨ n ∈ c) → (e.schema c).RefersTo n ∧ ¬ (e.schema c).RefersLazilyTo n) := by
  refine ⟨fun n => mem_typeNames_of_mentions, fun n => mem_dependencies_or_eq_name, ?_, ?_, ?_, ?_⟩
  · intro n hn
    exact mem_typeNames.mpr (mem_dependencies.mp hn).2
  · intro hdrops n
    exact ⟨mem_typeNames_of_mentions, mentions_of_mem_typeNames hdrops⟩
  · intro r x hkind hx hdrops n
    exact mentions_iff_of_dropsValues hkind hx hdrops
  · intro n hmentions
    constructor
    · intro hlazy
      have hnot : ¬ (e.schema c).RefersTo n := not_refersTo_of_eq_or_mem hlazy
      exact ⟨hmentions.resolve_left hnot, hnot⟩
    · intro heager
      have hnot : ¬ (e.schema c).RefersLazilyTo n := fun h => heager (eq_or_mem_of_refersLazilyTo h)
      exact ⟨hmentions.resolve_right hnot, hnot⟩

/-- The one key that the record may have is declared, so its schema has no place for pets. -/
theorem schema_mentions_of_full_record :
    let map : MapExtension :=
      ⟨.required "" (.named "Tag"), .required "" (.named "Pet"), ["owner"]⟩
    let r : Record := ⟨[.required "owner" (.named "User")], some map, [.keys ⟨none, some 1⟩]⟩
    let e : Entity := .map "Home" r
    "Pet" ∈ e.dependencies ∧
      ∀ n, (e.schema []).Mentions n ↔ ∃ m ∈ r.members ++ [map.key], m.type.name? = some n := by
  intro map r e
  have hdrops : r.DropsValues :=
    ⟨List.cons_ne_nil _ _, ⟨map, rfl, by decide⟩, 1, rfl, by decide⟩
  obtain ⟨-, -, -, -, hfull, -⟩ := schema_mentions [] e
  exact ⟨by decide, hfull r map rfl rfl hdrops⟩

end Entity

end ServiceSchema
