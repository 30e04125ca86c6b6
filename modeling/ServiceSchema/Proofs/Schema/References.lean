import ServiceSchema.Proofs.Resolution.Graph
import ServiceSchema.Proofs.Schema.Nesting
/-!
# The references of a schema

Every reference in the schema of an entity comes from a member of the entity.  Eager references lead
to dependencies outside the circular group, lazy ones to the entity itself or into the group.  So a
schema depends on the group only through the dependencies of its entity.
-/

namespace ServiceSchema

open Schema

/-! ## Members -/

namespace Member

variable {sc : Scope} {role : Role} {m : Member} {n : String}

theorem target?_numberSchema (integral : Bool) (m : Member) :
    (m.numberSchema integral).base.target? = none := by
  unfold numberSchema
  split <;> rfl

theorem target?_primitiveSchema (m : Member) (p : Primitive) :
    (m.primitiveSchema p).base.target? = none := by
  cases p with
  | string =>
      change m.stringSchema.base.target? = none
      unfold stringSchema
      split
      · rfl
      split <;> rfl
  | number | float | double => exact m.target?_numberSchema false
  | integer | long => exact m.target?_numberSchema true
  | boolean =>
      change m.booleanSchema.base.target? = none
      unfold booleanSchema
      split <;> rfl
  | null | date | dateTime | binary | untyped => rfl

theorem target?_schema : (m.schema sc role).base.target? = m.type.name? := by
  change (m.elementSchema sc).base.target? = m.type.name?
  unfold elementSchema
  split
  · next p hp =>
      rw [hp]
      exact m.target?_primitiveSchema p
  · next name hname =>
      rw [hname]
      unfold Scope.reference
      split <;> rfl

theorem base_schema (h : m.type.name? = some n) :
    (m.schema sc role).base = (sc.reference n).base := by
  cases htype : m.type with
  | primitive p => simp [htype, TypeRef.name?] at h
  | named name =>
      obtain rfl : name = n := by simpa [htype, TypeRef.name?] using h
      change (m.elementSchema sc).base = _
      rw [elementSchema, htype]

theorem name?_of_base_eq {b : Base} (h : (m.schema sc role).base = b) (hb : b.target? = some n) :
    m.type.name? = some n := by
  have htarget : (m.schema sc role).base.target? = m.type.name? := target?_schema
  rw [← htarget, h, hb]

theorem notMem_of_base_eq_ref (h : (m.schema sc role).base = .ref n) :
    n ≠ sc.owner ∧ n ∉ sc.circular := by
  rw [base_schema (name?_of_base_eq h rfl)] at h
  unfold Scope.reference at h
  split at h
  · cases h
  · next hnot => exact not_or.mp hnot

theorem mem_of_base_eq_lazy (h : (m.schema sc role).base = .lazy n) :
    n = sc.owner ∨ n ∈ sc.circular := by
  rw [base_schema (name?_of_base_eq h rfl)] at h
  unfold Scope.reference at h
  split at h
  · assumption
  · cases h

theorem schema_congr {sc sc' : Scope}
    (h : ∀ n, m.type.name? = some n → sc.reference n = sc'.reference n) :
    m.schema sc role = m.schema sc' role := by
  have helement : m.elementSchema sc = m.elementSchema sc' := by
    unfold elementSchema
    split
    · rfl
    · next name hname => exact h name (by rw [hname]; rfl)
  rw [schema, schema, helement]

end Member

/-! ## Records -/

namespace Record

variable {sc : Scope} {r : Record} {t : Schema}

theorem cases_of_mem_fields {f : Field} (h : f ∈ r.fields sc) :
    (∃ m ∈ r.members, f.schema = m.schema sc .field) ∨
      ∃ x, r.map = some x ∧ r.addedKeys ≠ [] ∧ f.schema = x.value.schema sc .mapValue := by
  rcases List.mem_append.mp h with hdeclared | hadded
  · obtain ⟨m, hm, rfl⟩ := List.mem_map.mp hdeclared
    exact Or.inl ⟨m, hm, rfl⟩
  · unfold addedFields at hadded
    split at hadded
    · next x hx =>
        obtain ⟨k, hk, rfl⟩ := List.mem_map.mp hadded
        exact Or.inr ⟨x, hx, List.ne_nil_of_mem hk, rfl⟩
    · exact absurd hadded List.not_mem_nil

/-- The values of a map are the schema of further keys if there are fields and the bound on the keys
leaves room beside them. -/
theorem mem_catchallOps_iff {op : Op} : op ∈ r.catchallOps sc ↔
    ∃ x, r.map = some x ∧ r.knownKeys ≠ [] ∧ r.hasRoom = true ∧
      op = .catchall (x.value.schema sc .mapValue) := by
  unfold catchallOps
  cases r.map with
  | none => simp
  | some x => cases r.hasRoom <;> by_cases hknown : r.knownKeys = [] <;> simp [hknown]

theorem mem_keyCheckOps_iff {op : Op} : op ∈ r.keyCheckOps sc ↔
    ∃ x, r.map = some x ∧ (x.key.rules ≠ [] ∨ x.key.type.isPrimitive = false) ∧
      op = .keyCheck (x.key.schema sc .mapKey) r.knownKeys := by
  unfold keyCheckOps
  cases r.map with
  | none => simp
  | some x =>
      by_cases hchecked : x.key.rules ≠ [] ∨ x.key.type.isPrimitive = false <;> simp [hchecked]

theorem mem_ops_schema_iff {op : Op} : op ∈ (r.schema sc).ops ↔
    op ∈ r.catchallOps sc ∨ (∃ n ∈ r.keyBounds.min, op = minKeysOp sc.owner n) ∨
      (∃ n ∈ r.keyBounds.max, op = maxKeysOp sc.owner n) ∨ op ∈ r.keyCheckOps sc := by
  simp only [schema, List.mem_append, List.mem_map, Option.mem_toList, Option.mem_def, or_assoc,
    @eq_comm _ op]

theorem cases_of_mem_ops {op : Op} (hop : op ∈ (r.schema sc).ops) (ht : t ∈ op.nested) :
    (∃ x, r.map = some x ∧ r.hasRoom = true ∧ t = x.value.schema sc .mapValue) ∨
      ∃ x, r.map = some x ∧ t = x.key.schema sc .mapKey := by
  rcases mem_ops_schema_iff.mp hop with hcatchall | ⟨n, -, rfl⟩ | ⟨n, -, rfl⟩ | hcheck
  · obtain ⟨x, hx, -, hroom, rfl⟩ := mem_catchallOps_iff.mp hcatchall
    exact Or.inl ⟨x, hx, hroom, List.mem_singleton.mp ht⟩
  · exact absurd ht List.not_mem_nil
  · exact absurd ht List.not_mem_nil
  · obtain ⟨x, hx, -, rfl⟩ := mem_keyCheckOps_iff.mp hcheck
    exact Or.inr ⟨x, hx, List.mem_singleton.mp ht⟩

theorem cases_of_mem_base (h : t ∈ (r.base sc).nested) :
    (r.knownKeys ≠ [] ∧ ∃ f ∈ r.fields sc, t = f.schema) ∨
      r.knownKeys = [] ∧
        ((∃ x, r.map = some x ∧ t = x.value.schema sc .mapValue) ∨ t = .ofBase .any) := by
  unfold base at h
  split at h
  · next hknown =>
      have ht : t = r.valueSchema sc := List.mem_singleton.mp h
      unfold valueSchema at ht
      refine Or.inr ⟨List.isEmpty_iff.mp hknown, ?_⟩
      split at ht
      · next x hx => exact Or.inl ⟨x, hx, ht⟩
      · exact Or.inr ht
  · next hknown =>
      obtain ⟨f, hf, rfl⟩ := List.mem_map.mp h
      exact Or.inl ⟨fun hnil => hknown (List.isEmpty_iff.mpr hnil), f, hf, rfl⟩

/-- The schema of a record nests those of its declared members, and those of the key and the value
of its map.  The value may be left out when there are fields. -/
theorem cases_of_mem_nested (h : t ∈ (r.schema sc).nested) :
    (∃ m ∈ r.members, t = m.schema sc .field) ∨
      (∃ x, r.map = some x ∧ t = x.key.schema sc .mapKey) ∨
      (∃ x, r.map = some x ∧ (r.knownKeys = [] ∨ r.addedKeys ≠ [] ∨ r.hasRoom = true) ∧
        t = x.value.schema sc .mapValue) ∨
      t = .ofBase .any := by
  rcases List.mem_append.mp h with hbase | hops
  · rcases cases_of_mem_base hbase with ⟨-, f, hf, rfl⟩ | ⟨hknown, ⟨x, hx, ht⟩ | hany⟩
    · rcases cases_of_mem_fields hf with hdeclared | ⟨x, hx, hadded, ht⟩
      · exact Or.inl hdeclared
      · exact Or.inr (Or.inr (Or.inl ⟨x, hx, Or.inr (Or.inl hadded), ht⟩))
    · exact Or.inr (Or.inr (Or.inl ⟨x, hx, Or.inl hknown, ht⟩))
    · exact Or.inr (Or.inr (Or.inr hany))
  · obtain ⟨op, hop, ht⟩ := List.mem_flatMap.mp hops
    rcases cases_of_mem_ops hop ht with ⟨x, hx, hroom, ht⟩ | hkey
    · exact Or.inr (Or.inr (Or.inl ⟨x, hx, Or.inr (Or.inr hroom), ht⟩))
    · exact Or.inr (Or.inl hkey)

end Record

/-! ## Entities -/

def Union.reasons : List String :=
  ["union has no variants", "unions of primitive types are not supported"]

/-- What the schema of an entity starts with unless it is the schema of a member. -/
def Schema.Base.IsOwn : Base → Prop
  | .object _ | .record _ | .enum _ | .union _ | .discriminatedUnion _ _ => True
  | .unsupported reason => reason ∈ Union.reasons
  | _ => False

theorem Schema.Base.IsOwn.target?_eq_none {b : Base} (h : b.IsOwn) : b.target? = none := by
  cases b with
  | ref n | lazy n => exact h.elim
  | _ => rfl

namespace Entity

variable {c d : List String} {e : Entity} {n : String} {t : Schema}

theorem mem_members_of_declared {name : String} {r : Record} {m : Member} (hm : m ∈ r.members) :
    m ∈ members ⟨name, .record r⟩ :=
  List.mem_append_left _ hm

theorem value_mem_members {name : String} {r : Record} {x : MapExtension} (hx : r.map = some x) :
    x.value ∈ members ⟨name, .record r⟩ := by
  change x.value ∈ r.members ++ _
  simp [hx]

theorem key_mem_members {name : String} {r : Record} {x : MapExtension} (hx : r.map = some x) :
    x.key ∈ members ⟨name, .record r⟩ := by
  change x.key ∈ r.members ++ _
  simp [hx]

/-- A schema is one of those that the members of an entity have in some role. -/
def FromMember (c : List String) (e : Entity) (t : Schema) : Prop :=
  ∃ m ∈ e.members, ∃ role, t = m.schema ⟨e.name, c⟩ role

theorem fromMember_of_mem_nested_record {name : String} {r : Record} {t : Schema}
    (h : t ∈ (r.schema ⟨name, c⟩).nested) :
    FromMember c ⟨name, .record r⟩ t ∨ t = .ofBase .any := by
  rcases Record.cases_of_mem_nested h with ⟨m, hm, ht⟩ | ⟨x, hx, ht⟩ | ⟨x, hx, -, ht⟩ | hany
  · exact Or.inl ⟨m, mem_members_of_declared hm, .field, ht⟩
  · exact Or.inl ⟨x.key, key_mem_members hx, .mapKey, ht⟩
  · exact Or.inl ⟨x.value, value_mem_members hx, .mapValue, ht⟩
  · exact Or.inr hany

theorem mem_variants_of_shape {u : Union} {variant : Member} (h : u.shape = .alias variant) :
    variant ∈ u.variants := by
  unfold Union.shape at h
  split at h
  · cases h
  · next only honly =>
      split at h
      · cases h
      · cases h
        rw [honly]
        exact List.mem_singleton_self variant
  · split at h <;> cases h

theorem exists_variant_of_mem_nested {sc : Scope} {u : Union} {t : Schema}
    (h : t ∈ (u.schema sc).nested) : ∃ m ∈ u.variants, t = m.schema sc .variant := by
  have hvariants : t ∈ u.variants.map (·.schema sc .variant) →
      ∃ m ∈ u.variants, t = m.schema sc .variant := by
    intro ht
    obtain ⟨m, hm, rfl⟩ := List.mem_map.mp ht
    exact ⟨m, hm, rfl⟩
  unfold Union.schema at h
  split at h
  · next variant _ =>
      rw [variant.nested_schema] at h
      exact absurd h List.not_mem_nil
  · exact absurd h List.not_mem_nil
  · exact absurd h List.not_mem_nil
  · cases hdiscriminator : u.discriminator with
    | none =>
        rw [hdiscriminator] at h
        exact hvariants (by simpa [nested, ofBase, Base.nested] using h)
    | some d =>
        rw [hdiscriminator] at h
        exact hvariants (by simpa [nested, ofBase, Base.nested] using h)

/-- An entity has the schema of a member, or its schema has a base of its own and nests only schemas
of members and the open schema. -/
theorem schema_cases (c : List String) (e : Entity) :
    FromMember c e (e.schema c) ∨
      (e.schema c).base.IsOwn ∧
        ∀ t ∈ (e.schema c).nested, FromMember c e t ∨ t = .ofBase .any := by
  obtain ⟨name, kind⟩ := e
  cases kind with
  | record r =>
      refine Or.inr ⟨?_, fun t ht => fromMember_of_mem_nested_record ht⟩
      change (r.base ⟨name, c⟩).IsOwn
      unfold Record.base
      split <;> trivial
  | parameterBag b =>
      refine Or.inr ⟨trivial, fun t ht => Or.inl ?_⟩
      simp only [schema, ParameterBag.schema, nested, ofBase, Base.nested, List.flatMap_nil,
        List.append_nil, List.map_map, List.mem_map] at ht
      obtain ⟨m, hm, rfl⟩ := ht
      exact ⟨m, hm, .field, rfl⟩
  | union u =>
      have hnested : ∀ t ∈ (u.schema ⟨name, c⟩).nested, FromMember c ⟨name, .union u⟩ t := by
        intro t ht
        obtain ⟨m, hm, heq⟩ := exists_variant_of_mem_nested ht
        exact ⟨m, hm, .variant, heq⟩
      have hself : FromMember c ⟨name, .union u⟩ (u.schema ⟨name, c⟩) ∨
          (u.schema ⟨name, c⟩).base.IsOwn := by
        unfold Union.schema
        split
        · next variant hshape =>
            exact Or.inl ⟨variant, mem_variants_of_shape hshape, .variant, rfl⟩
        · exact Or.inr List.mem_cons_self
        · exact Or.inr (List.mem_cons_of_mem _ List.mem_cons_self)
        · refine Or.inr ?_
          cases u.discriminator <;> trivial
      exact hself.imp id fun hbase => ⟨hbase, fun t ht => Or.inl (hnested t ht)⟩
  | enum values => exact Or.inr ⟨trivial, fun t ht => absurd ht List.not_mem_nil⟩

theorem cases_of_mem_nested_schema (h : t ∈ (e.schema c).nested) :
    FromMember c e t ∨ t = .ofBase .any := by
  rcases schema_cases c e with ⟨m, -, role, heq⟩ | ⟨-, hnested⟩
  · rw [heq, m.nested_schema] at h
    exact absurd h List.not_mem_nil
  · exact hnested t h

/-- A schema that occurs in a definition is the whole of it, the schema of a member or the open
schema: nothing is nested deeper. -/
theorem cases_of_within (h : Within t (e.schema c)) :
    t = e.schema c ∨ FromMember c e t ∨ t = .ofBase .any := by
  cases h with
  | self => exact Or.inl rfl
  | nested hu hwithin =>
      rcases cases_of_mem_nested_schema hu with ⟨m, hm, role, rfl⟩ | rfl
      · exact Or.inr (Or.inl ⟨m, hm, role, Member.eq_of_within_schema hwithin⟩)
      · exact Or.inr (Or.inr (hwithin.eq_of_nested_eq_nil rfl))

/-- A schema that occurs in a definition comes from a member, or its base is that of the whole or
open. -/
theorem fromMember_or_base_of_within (h : Within t (e.schema c)) :
    FromMember c e t ∨ t.base.IsOwn ∨ t.base = .any := by
  rcases cases_of_within h with rfl | hmember | rfl
  · exact (schema_cases c e).imp id fun hown => Or.inl hown.1
  · exact Or.inl hmember
  · exact Or.inr (Or.inr rfl)

theorem fromMember_of_within (h : Within t (e.schema c)) (ht : t.base.target? = some n) :
    FromMember c e t := by
  rcases fromMember_or_base_of_within h with hmember | hown | hany
  · exact hmember
  · rw [hown.target?_eq_none] at ht
    cases ht
  · rw [hany] at ht
    cases ht

/-- Eager references lead to dependencies that are not circular. -/
theorem mem_dependencies_of_refersTo (h : (e.schema c).RefersTo n) :
    n ∈ e.dependencies ∧ n ∉ c := by
  obtain ⟨t, hwithin, hbase⟩ := h
  obtain ⟨m, hm, role, rfl⟩ := fromMember_of_within hwithin (n := n) (by rw [hbase]; rfl)
  have hnot := Member.notMem_of_base_eq_ref hbase
  exact ⟨mem_dependencies.mpr ⟨hnot.1, m, hm, Member.name?_of_base_eq hbase rfl⟩, hnot.2⟩

/-- Lazy references lead back to the entity or into the circular group. -/
theorem eq_or_mem_of_refersLazilyTo (h : (e.schema c).RefersLazilyTo n) : n = e.name ∨ n ∈ c := by
  obtain ⟨t, hwithin, hbase⟩ := h
  obtain ⟨m, hm, role, rfl⟩ := fromMember_of_within hwithin (n := n) (by rw [hbase]; rfl)
  exact Member.mem_of_base_eq_lazy hbase

/-! ## Independence of the circular group -/

theorem record_schema_congr {name : String} {r : Record}
    (h : ∀ m ∈ members ⟨name, .record r⟩, ∀ role,
      m.schema ⟨name, c⟩ role = m.schema ⟨name, d⟩ role) :
    r.schema ⟨name, c⟩ = r.schema ⟨name, d⟩ := by
  have hdeclared : r.declaredFields ⟨name, c⟩ = r.declaredFields ⟨name, d⟩ := by
    apply List.map_congr_left
    intro m hm
    rw [h m (mem_members_of_declared hm) .field]
  have hmap : ∀ x, r.map = some x →
      x.value.schema ⟨name, c⟩ .mapValue = x.value.schema ⟨name, d⟩ .mapValue ∧
        x.key.schema ⟨name, c⟩ .mapKey = x.key.schema ⟨name, d⟩ .mapKey := by
    intro x hx
    exact ⟨h _ (value_mem_members hx) _, h _ (key_mem_members hx) _⟩
  unfold Record.schema Record.base Record.fields Record.addedFields Record.valueSchema
    Record.catchallOps Record.keyCheckOps
  rw [hdeclared]
  cases hx : r.map with
  | none => rfl
  | some x =>
      obtain ⟨hvalue, hkey⟩ := hmap x hx
      simp only [hvalue, hkey]

theorem schema_congr (h : ∀ n ∈ e.dependencies, n ∈ c ↔ n ∈ d) : e.schema c = e.schema d := by
  have hmember : ∀ m ∈ e.members, ∀ role,
      m.schema ⟨e.name, c⟩ role = m.schema ⟨e.name, d⟩ role := by
    intro m hm role
    apply Member.schema_congr
    intro n hn
    unfold Scope.reference
    by_cases hself : n = e.name
    · rw [if_pos (Or.inl hself), if_pos (Or.inl hself)]
    · simp only [hself, false_or, h n (mem_dependencies.mpr ⟨hself, m, hm, hn⟩)]
  obtain ⟨name, kind⟩ := e
  cases kind with
  | record r => exact record_schema_congr hmember
  | parameterBag b =>
      change b.schema ⟨name, c⟩ = b.schema ⟨name, d⟩
      unfold ParameterBag.schema
      congr 2
      apply List.map_congr_left
      intro m hm
      rw [hmember m hm .field]
  | union u =>
      change u.schema ⟨name, c⟩ = u.schema ⟨name, d⟩
      have hvariants : u.variants.map (·.schema ⟨name, c⟩ .variant) =
          u.variants.map (·.schema ⟨name, d⟩ .variant) :=
        List.map_congr_left fun m hm => hmember m hm .variant
      unfold Union.schema
      rw [hvariants]
      split
      · next variant hshape => exact hmember variant (mem_variants_of_shape hshape) .variant
      · rfl
      · rfl
      · rfl
  | enum values => rfl

end Entity

end ServiceSchema
