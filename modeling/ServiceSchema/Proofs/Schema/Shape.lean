import ServiceSchema.Proofs.Model.Bounds
import ServiceSchema.Proofs.Schema.Fields
/-!
# The shape of a record

A record with known keys, be they declared or required, becomes an object with these as its fields;
any other becomes a collection under arbitrary keys.  What a map says of its values and keys is then
said of the keys that are no fields: its values are the schema of all further keys if the bound on
the keys leaves room for one, and the check of its keys passes over exactly the fields.
-/

namespace ServiceSchema

open Schema

def Schema.Base.fieldNames : Base → List String
  | .object fields => fields.map Field.name
  | _ => []

namespace Record

variable {sc : Scope} {r : Record}

/-- The schema of the values of a map; without a map any values will do. -/
theorem valueSchema_eq (sc : Scope) (r : Record) :
    r.valueSchema sc = r.map.elim (.ofBase .any) (·.value.schema sc .mapValue) := by
  unfold valueSchema
  cases r.map <;> rfl

theorem knownKeys_ne_nil_iff : r.knownKeys ≠ [] ↔ r.members ≠ [] ∨ r.requiredKeys ≠ [] := by
  have hnil : r.knownKeys = [] ↔ r.members = [] ∧ r.requiredKeys = [] := by
    constructor
    · intro hknown
      have hnone : ∀ k, k ∉ r.declaredNames ∧ k ∉ r.requiredKeys := by
        intro k
        rw [← not_or, ← mem_knownKeys, hknown]
        exact List.not_mem_nil
      have hdeclared : r.declaredNames = [] :=
        List.eq_nil_iff_forall_not_mem.mpr fun k => (hnone k).1
      exact ⟨List.map_eq_nil_iff.mp hdeclared,
        List.eq_nil_iff_forall_not_mem.mpr fun k => (hnone k).2⟩
    · rintro ⟨hmembers, hrequired⟩
      refine knownKeys_eq_nil_iff.mpr ⟨hmembers, ?_⟩
      rw [addedKeys_eq, hrequired, List.filter_nil]
  rw [Ne, hnil, not_and_or]

theorem exists_base_eq_object_iff :
    (∃ fields, (r.schema sc).base = .object fields) ↔ r.members ≠ [] ∨ r.requiredKeys ≠ [] := by
  simp only [base_eq_object_iff, exists_and_left, exists_eq, and_true]
  exact knownKeys_ne_nil_iff

theorem base_of_knownKeys_eq_nil (h : r.knownKeys = []) :
    (r.schema sc).base = .record (r.valueSchema sc) := by
  change r.base sc = _
  rw [base, h, List.isEmpty_nil, if_pos rfl]

theorem fieldNames_base : (r.schema sc).base.fieldNames = r.knownKeys := by
  by_cases hknown : r.knownKeys = []
  · rw [base_of_knownKeys_eq_nil hknown, hknown]
    rfl
  · rw [base_of_knownKeys hknown]
    exact map_name_fields sc r

theorem keyCheck_mem_schema_iff {key : Schema} {known : List String} :
    .keyCheck key known ∈ (r.schema sc).ops ↔
      ∃ x, r.map = some x ∧ (x.key.rules ≠ [] ∨ x.key.type.isPrimitive = false) ∧
        key = x.key.schema sc .mapKey ∧ known = r.knownKeys := by
  simp [mem_ops_schema_iff, mem_catchallOps_iff, mem_keyCheckOps_iff, minKeysOp, maxKeysOp]

/-- The bound on the number of keys leaves room beside the fields if the last rule that sets it
does. -/
theorem hasRoom_iff_lastBound : r.hasRoom = true ↔
    ∀ greatest ∈ Rule.lastBound Rule.keys? CountBounds.max r.rules,
      r.knownKeys.length < greatest.toNat := by
  rw [hasRoom_iff, keyBounds, Rule.keyBounds_eq]
  rfl

end Record

namespace Entity

variable {e : Entity} {r : Record}

/-- A record with a declared member or a required key becomes an object, whose fields are the
members and these keys.  Any other record is a collection of the values of its map, or of any values
without a map.  An object is open to further keys, with the values of the map, if there is a map and
the last rule that bounds the number of keys allows more than there are fields.  A check of keys
passes over the fields and nothing else. -/
theorem record_schema_shape (c : List String) (hkind : e.kind = .record r) :
    ((∃ fields, (e.schema c).base = .object fields) ↔ r.members ≠ [] ∨ r.requiredKeys ≠ []) ∧
    (¬ (∃ fields, (e.schema c).base = .object fields) → (e.schema c).base =
      .record (r.map.elim (.ofBase .any) (·.value.schema ⟨e.name, c⟩ .mapValue))) ∧
    (∀ fields, (e.schema c).base = .object fields → ∀ k,
      k ∈ fields.map Field.name ↔ k ∈ r.declaredNames ∨ k ∈ r.requiredKeys) ∧
    (∀ value, .catchall value ∈ (e.schema c).ops ↔
      ∃ fields x, (e.schema c).base = .object fields ∧ r.map = some x ∧
        (∀ greatest ∈ Rule.lastBound Rule.keys? CountBounds.max r.rules,
          fields.length < greatest.toNat) ∧
        value = x.value.schema ⟨e.name, c⟩ .mapValue) ∧
    ∀ key known, .keyCheck key known ∈ (e.schema c).ops →
      known = (e.schema c).base.fieldNames := by
  obtain ⟨name, kind⟩ := e
  cases hkind
  refine ⟨Record.exists_base_eq_object_iff, ?_, ?_, ?_, ?_⟩
  · intro hobject
    have hknown : r.knownKeys = [] := by
      by_contra hknown
      exact hobject ⟨_, Record.base_of_knownKeys hknown⟩
    rw [← Record.valueSchema_eq]
    exact Record.base_of_knownKeys_eq_nil hknown
  · intro fields hbase k
    obtain ⟨-, rfl⟩ := Record.base_eq_object_iff.mp hbase
    rw [Record.map_name_fields]
    exact Record.mem_knownKeys
  · intro value
    refine Record.catchall_mem_schema_iff.trans ?_
    rw [Record.hasRoom_iff_lastBound]
    constructor
    · rintro ⟨x, hx, hknown, hroom, hvalue⟩
      rw [← Record.length_fields ⟨name, c⟩ r] at hroom
      exact ⟨_, x, Record.base_of_knownKeys hknown, hx, hroom, hvalue⟩
    · rintro ⟨fields, x, hbase, hx, hroom, hvalue⟩
      obtain ⟨hknown, rfl⟩ := Record.base_eq_object_iff.mp hbase
      rw [Record.length_fields] at hroom
      exact ⟨x, hx, hknown, hroom, hvalue⟩
  · intro key known hcheck
    obtain ⟨-, -, -, -, hknown⟩ := Record.keyCheck_mem_schema_iff.mp hcheck
    exact hknown.trans Record.fieldNames_base.symm

/-- One of the two required keys is declared too, and the last rule that bounds the number of keys
from above is not the last rule. -/
theorem record_schema_shape_of_overlapping_keys :
    let map : MapExtension :=
      ⟨{ Member.required "" (.primitive .string) with rules := [.pattern "^[a-z]+$"] },
        .required "" (.named "Quota"), ["region", "owner"]⟩
    let r : Record := ⟨[.optional "region" (.primitive .string)], some map,
      [.keys ⟨none, some 2⟩, .keys ⟨some 1, some 3⟩, .items ⟨none, some 1⟩, .keys ⟨some 2, none⟩]⟩
    let e : Entity := .map "Quotas" r
    ∃ fields, (e.schema ["Quota"]).base = .object fields ∧
      .catchall (.lazyRef "Quota") ∈ (e.schema ["Quota"]).ops ∧
      ∀ key known, .keyCheck key known ∈ (e.schema ["Quota"]).ops →
        known = ["region", "owner"] := by
  intro map r e
  have hbase : (e.schema ["Quota"]).base = .object (r.fields ⟨"Quotas", ["Quota"]⟩) := rfl
  obtain ⟨-, -, -, hcatchall, hcheck⟩ := record_schema_shape ["Quota"] (e := e) rfl
  refine ⟨_, hbase, (hcatchall _).mpr ⟨_, map, hbase, rfl, ?_, rfl⟩, hcheck⟩
  rintro greatest ⟨⟩
  decide

end Entity

end ServiceSchema
