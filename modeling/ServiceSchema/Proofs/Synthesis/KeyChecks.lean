import ServiceSchema.Proofs.Schema.Shape
import ServiceSchema.Proofs.Synthesis.Coercion
/-!
# Checks of keys

The keys of an object are strings, so a check of keys is of use only if its schema can accept a
string.  It is the schema of the map's key like that of any other member, and no string satisfies a
number that is not converted, null, an array or a constant of another type.  Whether the check can
accept a key can be read off the key member, but rules are all it takes for the check to be made.
-/

namespace ServiceSchema

open Schema

/-- No string satisfies a number or a truth value that is not converted, null or a constant that is
no string. -/
def Schema.Base.refusesStrings : Base → Bool
  | .number coerce => !coerce
  | .boolean coerce => !coerce
  | .null => true
  | .literal (.string _) => false
  | .literal _ => true
  | _ => false

/-- Nothing about the base or an array rules out strings. -/
def Schema.AdmitsStrings (s : Schema) : Prop :=
  s.base.refusesStrings = false ∧ .array ∉ s.ops

namespace Member

variable {sc : Scope} {role : Role} {m : Member}

structure TakesStrings (m : Member) : Prop where
  not_array : m.isArray = false
  not_null : m.type ≠ .primitive .null
  /-- Only strings, numbers and truth values have constants. -/
  constant : m.type = .primitive .string ∨ m.type.isConvertible = true →
    ∀ value, m.constant = some value → ∃ s, value = .string s
  converted : m.type.isConvertible = true → m.constant = none →
    ∃ l, m.location = some l ∧ l ≠ .body

theorem refusesStrings_literal_iff {value : Json} :
    (Schema.literal value).base.refusesStrings = false ↔ ∃ s, value = .string s := by
  cases value <;> simp [literal, ofBase, Base.refusesStrings]

theorem refusesStrings_stringSchema_iff : m.stringSchema.base.refusesStrings = false ↔
    ∀ value, m.constant = some value → ∃ s, value = .string s := by
  unfold stringSchema
  cases m.constant with
  | some value => simp [refusesStrings_literal_iff]
  | none => cases m.rules.findSome? Rule.enum? <;> simp [ofBase, Base.refusesStrings]

theorem refusesStrings_numberSchema_iff {integral : Bool} :
    (m.numberSchema integral).base.refusesStrings = false ↔
      (∀ value, m.constant = some value → ∃ s, value = .string s) ∧
        (m.constant = none → m.coerces = true) := by
  unfold numberSchema
  cases m.constant with
  | some value => simp [refusesStrings_literal_iff]
  | none => simp [Base.refusesStrings]

theorem refusesStrings_booleanSchema_iff : m.booleanSchema.base.refusesStrings = false ↔
    (∀ value, m.constant = some value → ∃ s, value = .string s) ∧
      (m.constant = none → m.coerces = true) := by
  unfold booleanSchema
  cases m.constant with
  | some value => simp [refusesStrings_literal_iff]
  | none => simp [ofBase, Base.refusesStrings]

theorem refusesStrings_schema_iff : (m.schema sc role).base.refusesStrings = false ↔
    m.type ≠ .primitive .null ∧
      (m.type = .primitive .string ∨ m.type.isConvertible = true →
        ∀ value, m.constant = some value → ∃ s, value = .string s) ∧
      (m.type.isConvertible = true → m.constant = none → m.coerces = true) := by
  change (m.elementSchema sc).base.refusesStrings = false ↔ _
  unfold elementSchema
  cases m.type with
  | named name =>
      have hreference : (sc.reference name).base.refusesStrings = false := by
        unfold Scope.reference
        split <;> rfl
      simp [hreference, TypeRef.isConvertible]
  | primitive p =>
      cases p with
      | string =>
          simp [primitiveSchema, refusesStrings_stringSchema_iff, TypeRef.isConvertible,
            Primitive.isNumeric]
      | number | float | double | integer | long =>
          simp [primitiveSchema, refusesStrings_numberSchema_iff, TypeRef.isConvertible,
            Primitive.isNumeric]
      | boolean => simp [primitiveSchema, refusesStrings_booleanSchema_iff, TypeRef.isConvertible]
      | null => simp [primitiveSchema, ofBase, Base.refusesStrings]
      | date | dateTime | binary | untyped =>
          simp [primitiveSchema, ofBase, Base.refusesStrings, TypeRef.isConvertible,
            Primitive.isNumeric]

/-- In any role the schema of a member accepts strings only if one may be given for the member. -/
theorem admitsStrings_schema_iff : (m.schema sc role).AdmitsStrings ↔ m.TakesStrings := by
  rw [AdmitsStrings, refusesStrings_schema_iff, array_mem_schema_iff, Bool.not_eq_true]
  simp only [coerces_iff]
  constructor
  · rintro ⟨⟨hnull, hconstant, hconverted⟩, harray⟩
    exact ⟨harray, hnull, hconstant, hconverted⟩
  · rintro ⟨harray, hnull, hconstant, hconverted⟩
    exact ⟨⟨hnull, hconstant, hconverted⟩, harray⟩

end Member

namespace Entity

variable {e : Entity} {r : Record} {x : MapExtension}

/-- The keys of a map are checked exactly if the key has rules or names an entity.  The check may
accept a key exactly if a string may be given for the key member. -/
theorem schema_checks_keys (c : List String) (hkind : e.kind = .record r) (hx : r.map = some x) :
    ((∃ key known, .keyCheck key known ∈ (e.schema c).ops) ↔
      x.key.rules ≠ [] ∨ x.key.type.isPrimitive = false) ∧
    ∀ key known, .keyCheck key known ∈ (e.schema c).ops →
      (key.AdmitsStrings ↔ x.key.TakesStrings) := by
  obtain ⟨name, kind⟩ := e
  cases hkind
  constructor
  · constructor
    · rintro ⟨key, known, hcheck⟩
      obtain ⟨y, hy, hchecked, -⟩ := Record.keyCheck_mem_schema_iff.mp hcheck
      obtain rfl : x = y := Option.some.inj (hx.symm.trans hy)
      exact hchecked
    · intro hchecked
      exact ⟨_, _, Record.keyCheck_mem_schema_iff.mpr ⟨x, hx, hchecked, rfl, rfl⟩⟩
  · intro key known hcheck
    obtain ⟨y, hy, -, rfl, -⟩ := Record.keyCheck_mem_schema_iff.mp hcheck
    obtain rfl : x = y := Option.some.inj (hx.symm.trans hy)
    exact Member.admitsStrings_schema_iff

/-- A number is not converted, but a constant takes its place that a key can be equal to. -/
theorem schema_checks_keys_of_string_constant :
    let latest : Member :=
      ((Member.required "" (.primitive .integer)).withConstant (.string "latest")).withRule
        (.multipleOf (.integer 2 (by decide)))
    let map : MapExtension := ⟨latest, .required "" (.primitive .string), ["first"]⟩
    let e : Entity := .map "Releases" ⟨[], some map, []⟩
    ∃ key known, .keyCheck key known ∈ (e.schema []).ops ∧ key.AdmitsStrings := by
  intro latest map e
  obtain ⟨hchecked, hadmits⟩ := schema_checks_keys [] (e := e) rfl (x := map) rfl
  obtain ⟨key, known, hcheck⟩ := hchecked.mpr (Or.inl (List.cons_ne_nil _ _))
  refine ⟨key, known, hcheck, (hadmits key known hcheck).mpr ⟨rfl, by decide, ?_, nofun⟩⟩
  rintro - value ⟨⟩
  exact ⟨_, rfl⟩

/-- The keys of the record have to be natural numbers, which no string is. -/
theorem exists_keyCheck_refusing_strings :
    let slot : Member := (Member.required "" (.primitive .integer)).withRule
      (.range ⟨none, some (.integer 0 (by decide)), none, none⟩)
    let map : MapExtension := ⟨slot, .required "" (.primitive .string), []⟩
    let e : Entity := .map "Slots" ⟨[], some map, []⟩
    ∃ key known, .keyCheck key known ∈ (e.schema []).ops ∧ ¬ key.AdmitsStrings := by
  intro slot map e
  refine ⟨slot.schema ⟨"Slots", []⟩ .mapKey, [], ?_, fun hadmits => ?_⟩
  · exact Record.keyCheck_mem_schema_iff.mpr
      ⟨map, rfl, Or.inl (List.cons_ne_nil _ _), rfl, rfl⟩
  · obtain ⟨l, hl, -⟩ := (Member.admitsStrings_schema_iff.mp hadmits).converted rfl rfl
    cases hl

end Entity

end ServiceSchema
