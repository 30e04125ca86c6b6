import Mathlib.Data.Finset.Card
import ServiceSchema.Proofs.Schema.Chains
import ServiceSchema.Proofs.Schema.Mentions
/-!
# The fields of a record

A record becomes an object with a field for each declared member, followed by a field for each
required key of its map that no member declares.  So every required key is a field.  Requiring a key
that a member declares leaves the field as the member has it, which may be optional.  Required keys
are only compared with the declared members, not with each other: a key that is required twice and
not declared becomes two fields, and both count for the bound on the number of keys.
-/

namespace ServiceSchema

open Schema

def Record.requiredKeys (r : Record) : List String := r.map.elim [] MapExtension.requiredKeys

/-- No key is required twice without being declared. -/
def Record.RequiresOnce (r : Record) : Prop :=
  ∀ k ∈ r.requiredKeys, k ∉ r.declaredNames → r.requiredKeys.count k = 1

namespace Member

variable {sc : Scope} {role : Role} {m : Member}

/-- A field is optional unless its member is required or has a default. -/
theorem isOptional_schema_iff : (m.schema sc role).isOptional = true ↔
    role = .field ∧ m.isRequired = false ∧ m.effectiveDefault = none := by
  have hbefore : ((m.elementSchema sc).ops ++ m.arrayOps).any Op.isOptional = false := by
    apply any_eq_false_of_isClosing
    intro op h
    cases op with
    | optional => rfl
    | _ => cases h
  rw [isOptional, ops_schema, ← List.append_assoc, List.any_append, hbefore, Bool.false_or]
  unfold closingOps optionalOps
  cases m.effectiveDefault with
  | some value => simp [Op.isOptional]
  | none => cases m.isRequired <;> cases role <;> simp [Op.isOptional]

end Member

namespace Record

variable {sc : Scope} {r : Record} {x : MapExtension} {k : String} {fields : List Field}

theorem requiredKeys_eq (hx : r.map = some x) : r.requiredKeys = x.requiredKeys := by
  rw [requiredKeys, hx, Option.elim_some]

theorem addedKeys_eq (r : Record) :
    r.addedKeys = r.requiredKeys.filter fun k => !r.declaredNames.contains k := by
  unfold addedKeys requiredKeys
  cases r.map with
  | none => rfl
  | some x => rfl

theorem mem_addedKeys : k ∈ r.addedKeys ↔ k ∈ r.requiredKeys ∧ k ∉ r.declaredNames := by
  simp [addedKeys_eq]

theorem mem_knownKeys : k ∈ r.knownKeys ↔ k ∈ r.declaredNames ∨ k ∈ r.requiredKeys := by
  rw [knownKeys, List.mem_append, mem_addedKeys]
  tauto

theorem map_name_fields (sc : Scope) (r : Record) : (r.fields sc).map Field.name = r.knownKeys := by
  have hdeclared : (r.declaredFields sc).map Field.name = r.declaredNames := by
    simp [declaredFields, declaredNames, Function.comp_def]
  have hadded : (r.addedFields sc).map Field.name = r.addedKeys := by
    unfold addedFields addedKeys
    cases r.map with
    | none => rfl
    | some x => simp [Function.comp_def]
  rw [fields, List.map_append, hdeclared, hadded, knownKeys]

theorem length_fields (sc : Scope) (r : Record) : (r.fields sc).length = r.knownKeys.length := by
  rw [← map_name_fields sc r, List.length_map]

theorem mem_fields (hx : r.map = some x) {f : Field} :
    f ∈ r.fields sc ↔ (∃ m ∈ r.members, f = ⟨m.name, m.schema sc .field⟩) ∨
      ∃ k ∈ r.addedKeys, f = ⟨k, x.value.schema sc .mapValue⟩ := by
  simp only [fields, declaredFields, addedFields, hx, List.mem_append, List.mem_map, eq_comm]

theorem base_eq_object_iff : (r.schema sc).base = .object fields ↔
    r.knownKeys ≠ [] ∧ fields = r.fields sc := by
  constructor
  · intro hbase
    by_cases hknown : r.knownKeys = []
    · change r.base sc = _ at hbase
      rw [base, hknown, List.isEmpty_nil, if_pos rfl] at hbase
      cases hbase
    · rw [base_of_knownKeys hknown, Base.object.injEq] at hbase
      exact ⟨hknown, hbase.symm⟩
  · rintro ⟨hknown, rfl⟩
    exact base_of_knownKeys hknown

/-! ## Required keys -/

/-- A field that is called like a key is optional exactly if it belongs to an optional member:
the fields that are added for required keys never are. -/
theorem exists_optional_field_iff (hx : r.map = some x) :
    (∃ f ∈ r.fields sc, f.name = k ∧ f.schema.isOptional = true) ↔
      ∃ m ∈ r.members, m.name = k ∧ m.isRequired = false ∧ m.effectiveDefault = none := by
  constructor
  · rintro ⟨f, hf, rfl, hoptional⟩
    rcases (mem_fields hx).mp hf with ⟨m, hm, rfl⟩ | ⟨k, -, rfl⟩
    · exact ⟨m, hm, rfl, (Member.isOptional_schema_iff.mp hoptional).2⟩
    · cases (Member.isOptional_schema_iff.mp hoptional).1
  · rintro ⟨m, hm, rfl, hmember⟩
    have hfield : (⟨m.name, m.schema sc .field⟩ : Field) ∈ r.fields sc :=
      (mem_fields hx).mpr (Or.inl ⟨m, hm, rfl⟩)
    exact ⟨_, hfield, rfl, Member.isOptional_schema_iff.mpr ⟨rfl, hmember⟩⟩

theorem exists_field_of_mem_requiredKeys (sc : Scope) (hk : k ∈ r.requiredKeys) :
    r.knownKeys ≠ [] ∧ ∃ f ∈ r.fields sc, f.name = k := by
  have hknown : k ∈ r.knownKeys := mem_knownKeys.mpr (Or.inr hk)
  refine ⟨List.ne_nil_of_mem hknown, ?_⟩
  rw [← map_name_fields sc r] at hknown
  exact List.mem_map.mp hknown

/-! ## Repetitions -/

theorem count_knownKeys (hdeclared : r.declaredNames.Nodup) (k : String) :
    r.knownKeys.count k = if k ∈ r.declaredNames then 1 else r.requiredKeys.count k := by
  rw [knownKeys, List.count_append]
  by_cases hk : k ∈ r.declaredNames
  · have hadded : r.addedKeys.count k = 0 := by
      apply List.count_eq_zero.mpr
      intro hmem
      exact (mem_addedKeys.mp hmem).2 hk
    rw [if_pos hk, hadded, List.count_eq_one_of_mem hdeclared hk]
  · have hadded : r.addedKeys.count k = r.requiredKeys.count k := by
      rw [addedKeys_eq]
      apply List.count_filter
      simp [hk]
    rw [if_neg hk, hadded, List.count_eq_zero.mpr hk, Nat.zero_add]

theorem nodup_knownKeys_iff (hdeclared : r.declaredNames.Nodup) :
    r.knownKeys.Nodup ↔ r.RequiresOnce := by
  rw [List.nodup_iff_count_le_one]
  constructor
  · intro hcount k hrequired hk
    have hle : r.requiredKeys.count k ≤ 1 := by
      have hknown := hcount k
      rwa [count_knownKeys hdeclared, if_neg hk] at hknown
    exact Nat.le_antisymm hle (List.one_le_count_iff.mpr hrequired)
  · intro honce k
    rw [count_knownKeys hdeclared]
    by_cases hk : k ∈ r.declaredNames
    · rw [if_pos hk]
    · rw [if_neg hk]
      by_cases hrequired : k ∈ r.requiredKeys
      · rw [honce k hrequired hk]
      · rw [List.count_eq_zero.mpr hrequired]
        exact Nat.zero_le 1

/-- The number of known keys is that of the distinct ones exactly if none is repeated. -/
theorem card_knownKeys_iff : r.knownKeys.toFinset.card = r.knownKeys.length ↔ r.knownKeys.Nodup :=
  Multiset.toFinset_card_eq_card_iff_nodup

/-! ## Further keys -/

theorem catchall_mem_schema_iff {value : Schema} : .catchall value ∈ (r.schema sc).ops ↔
    ∃ x, r.map = some x ∧ r.knownKeys ≠ [] ∧ r.hasRoom = true ∧
      value = x.value.schema sc .mapValue := by
  simp [mem_ops_schema_iff, mem_catchallOps_iff, mem_keyCheckOps_iff, minKeysOp, maxKeysOp]

/-- The values of the map are the schema of further keys when there are fields beside which the
bound on the keys leaves room. -/
theorem exists_catchall_iff (sc : Scope) (r : Record) :
    (∃ value, .catchall value ∈ (r.schema sc).ops) ↔
      r.map ≠ none ∧ r.knownKeys ≠ [] ∧ r.hasRoom = true := by
  simp only [catchall_mem_schema_iff, Option.ne_none_iff_exists']
  constructor
  · rintro ⟨value, x, hx, hknown, hroom, -⟩
    exact ⟨⟨x, hx⟩, hknown, hroom⟩
  · rintro ⟨⟨x, hx⟩, hknown, hroom⟩
    exact ⟨_, x, hx, hknown, hroom, rfl⟩

theorem hasRoom_iff :
    r.hasRoom = true ↔
      ∀ bound, r.keyBounds.max = some bound → r.knownKeys.length < bound.toNat := by
  rw [hasRoom]
  cases r.keyBounds.max <;> simp

end Record

namespace Entity

variable {e : Entity} {r : Record} {x : MapExtension} {k : String}

/-- Every required key of a map is a field of the object that the record becomes.  A field of that
name is optional only if an optional member without a default declares it. -/
theorem schema_has_required_key (c : List String) (hkind : e.kind = .record r)
    (hx : r.map = some x) (hk : k ∈ x.requiredKeys) :
    ∃ fields, (e.schema c).base = .object fields ∧ (∃ f ∈ fields, f.name = k) ∧
      ((∃ f ∈ fields, f.name = k ∧ f.schema.isOptional = true) ↔
        ∃ m ∈ r.members, m.name = k ∧ m.isRequired = false ∧ m.effectiveDefault = none) := by
  obtain ⟨name, kind⟩ := e
  cases hkind
  rw [← Record.requiredKeys_eq hx] at hk
  obtain ⟨hknown, hfield⟩ := Record.exists_field_of_mem_requiredKeys ⟨name, c⟩ hk
  refine ⟨r.fields ⟨name, c⟩, Record.base_of_knownKeys hknown, hfield, ?_⟩
  exact Record.exists_optional_field_iff hx

/-- The default of an optional member takes the place of a required key that is absent. -/
theorem schema_has_required_key_of_default :
    let map : MapExtension :=
      ⟨.required "" (.primitive .string), .optional "" (.primitive .string), ["owner", "stage"]⟩
    let stage : Member := (Member.optional "stage" (.primitive .string)).withDefault (.string "dev")
    let r : Record := ⟨[.optional "region" (.primitive .string), stage], some map, []⟩
    let e : Entity := .map "Env" r
    "stage" ∈ map.requiredKeys ∧ ∃ fields, (e.schema ["Env"]).base = .object fields ∧
      (∃ f ∈ fields, f.name = "stage") ∧
      ¬ ∃ f ∈ fields, f.name = "stage" ∧ f.schema.isOptional = true := by
  intro map stage r e
  have hrequired : "stage" ∈ map.requiredKeys := by decide
  obtain ⟨fields, hbase, hfield, hoptional⟩ :=
    schema_has_required_key ["Env"] (e := e) rfl rfl hrequired
  refine ⟨hrequired, fields, hbase, hfield, fun hset => ?_⟩
  obtain ⟨m, hm, hname, -, hdefault⟩ := hoptional.mp hset
  rcases List.mem_pair.mp hm with rfl | rfl
  · exact absurd hname (by decide)
  · cases hdefault

/-- Requiring a key does not make an optional member required. -/
theorem exists_optional_required_key :
    let map : MapExtension :=
      ⟨.required "" (.primitive .string), .required "" (.primitive .string), ["region"]⟩
    let e : Entity := .map "Env" ⟨[.optional "region" (.primitive .string)], some map, []⟩
    "region" ∈ map.requiredKeys ∧ ∃ fields, (e.schema []).base = .object fields ∧
      ∃ f ∈ fields, f.name = "region" ∧ f.schema.isOptional = true :=
  ⟨List.mem_cons_self, _, rfl, _, List.mem_cons_self, rfl, rfl⟩

/-- In the object that a record with distinct members becomes every declared name belongs to one
field, and another key to as many fields as it is required times.  The names are distinct, and their
number is the field count that the bound on the keys is compared with, exactly if no key is required
twice without being declared. -/
theorem schema_field_names (c : List String) (hkind : e.kind = .record r)
    (hdeclared : r.declaredNames.Nodup) {fields : List Field}
    (hbase : (e.schema c).base = .object fields) :
    (∀ k, (fields.map Field.name).count k =
      if k ∈ r.declaredNames then 1 else r.requiredKeys.count k) ∧
    ((fields.map Field.name).Nodup ↔ r.RequiresOnce) ∧
    ((fields.map Field.name).toFinset.card = fields.length ↔ r.RequiresOnce) ∧
    ((∃ value, .catchall value ∈ (e.schema c).ops) ↔
      r.map ≠ none ∧ ∀ bound, r.keyBounds.max = some bound → fields.length < bound.toNat) := by
  obtain ⟨name, kind⟩ := e
  cases hkind
  obtain ⟨hknown, rfl⟩ := Record.base_eq_object_iff.mp hbase
  rw [Record.map_name_fields, Record.length_fields]
  have hnodup : r.knownKeys.Nodup ↔ r.RequiresOnce := Record.nodup_knownKeys_iff hdeclared
  have hcatchall := Record.exists_catchall_iff ⟨name, c⟩ r
  rw [Record.hasRoom_iff, and_iff_right hknown] at hcatchall
  exact ⟨Record.count_knownKeys hdeclared, hnodup, Record.card_knownKeys_iff.trans hnodup,
    hcatchall⟩

/-- A declared key may be required twice. -/
theorem schema_field_names_of_declared_key :
    let map : MapExtension := ⟨.required "" (.primitive .string), .required "" (.primitive .string),
      ["host", "port", "host"]⟩
    let r : Record := ⟨[.required "host" (.primitive .string)], some map, [.keys ⟨none, some 3⟩]⟩
    let e : Entity := .map "Headers" r
    r.declaredNames.Nodup ∧ ∃ fields, (e.schema []).base = .object fields ∧
      (fields.map Field.name).Nodup ∧ ∃ value, .catchall value ∈ (e.schema []).ops := by
  intro map r e
  have hdeclared : r.declaredNames.Nodup := by decide
  have hbase : (e.schema []).base = .object (r.fields ⟨"Headers", []⟩) := rfl
  obtain ⟨-, hnodup, -, hcatchall⟩ := schema_field_names [] (e := e) rfl hdeclared hbase
  refine ⟨hdeclared, _, hbase, hnodup.mpr ?_, hcatchall.mpr ⟨Option.some_ne_none _, ?_⟩⟩
  · unfold Record.RequiresOnce
    decide
  · rintro bound ⟨⟩
    decide

/-- A key that is required twice and not declared becomes two fields, which leave no room for the
other key that the record may have. -/
theorem exists_repeated_field :
    let map : MapExtension :=
      ⟨.required "" (.primitive .string), .required "" (.primitive .string), ["host", "host"]⟩
    let r : Record := ⟨[], some map, [.keys ⟨none, some 2⟩]⟩
    let e : Entity := .map "Headers" r
    r.declaredNames.Nodup ∧ ∃ fields, (e.schema []).base = .object fields ∧
      ¬ (fields.map Field.name).Nodup ∧ (fields.map Field.name).toFinset.card = 1 ∧
      fields.length = 2 ∧ ∀ value, .catchall value ∉ (e.schema []).ops := by
  intro map r e
  have hnames : ¬ ["host", "host"].Nodup ∧ ["host", "host"].toFinset.card = 1 := by decide
  refine ⟨List.nodup_nil, _, rfl, hnames.1, hnames.2, rfl, fun value hvalue => ?_⟩
  have hroom := ((Record.exists_catchall_iff ⟨"Headers", []⟩ r).mp ⟨value, hvalue⟩).2.2
  exact absurd hroom (by decide)

end Entity

end ServiceSchema
