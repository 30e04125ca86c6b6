import ServiceSchema.Proofs.Model.Bounds
import ServiceSchema.Proofs.Schema.Fields
/-!
# How the schema of a member is composed

The array flag and the default of a member leave the schema of one element as it is: they only
append to it.  What a member is to its entity matters at the very end, where a field that may be
absent is marked as optional unless its default stands in for it.  A default that does not take
effect stands in for nothing, so the field is optional all the same.
-/

namespace ServiceSchema

open Schema (Op)

theorem Schema.andThen_nil (s : Schema) : s.andThen [] = s := by
  cases s
  rw [andThen, List.append_nil]

def Schema.Op.isDefault : Op → Bool
  | .default _ => true
  | _ => false

def Schema.hasDefault (s : Schema) : Bool :=
  s.ops.any (·.isDefault)

namespace Member

def element (m : Member) : Member :=
  { m with isArray := false, default := none }

/-- A member has a default that takes effect: it has no constant, and it is a string, a truth value
or a number. -/
structure KeepsDefault (m : Member) (value : Json) : Prop where
  default_eq : m.default = some value
  constant_eq : m.constant = none
  type : ∃ p, m.type = .primitive p ∧ (p = .string ∨ p = .boolean ∨ p.isNumeric = true)

variable {sc : Scope} {role : Role} {m : Member} {value : Json}

theorem takesDefault_iff {t : TypeRef} : takesDefault t = true ↔
    ∃ p, t = .primitive p ∧ (p = .string ∨ p = .boolean ∨ p.isNumeric = true) := by
  cases t with
  | primitive p => simp [takesDefault, or_assoc]
  | named name => simp [takesDefault]

theorem effectiveDefault_eq_some_iff : m.effectiveDefault = some value ↔ m.KeepsDefault value := by
  have hkept : m.effectiveDefault = some value ↔
      (m.constant = none ∧ takesDefault m.type = true) ∧ m.default = some value := by
    unfold effectiveDefault
    rw [Option.ite_none_right_eq_some, Bool.and_eq_true, Option.isNone_iff_eq_none]
  rw [hkept, takesDefault_iff]
  constructor
  · rintro ⟨⟨hconstant, htype⟩, hdefault⟩
    exact ⟨hdefault, hconstant, htype⟩
  · rintro ⟨hdefault, hconstant, htype⟩
    exact ⟨⟨hconstant, htype⟩, hdefault⟩

theorem effectiveDefault_eq_none_iff :
    m.effectiveDefault = none ↔ ∀ value, ¬ m.KeepsDefault value := by
  simp only [Option.eq_none_iff_forall_ne_some, ne_eq, effectiveDefault_eq_some_iff]

/-! ## The parts of a schema -/

theorem optionalOps_of_ne_field (h : role ≠ .field) : m.optionalOps role = [] := by
  apply if_neg
  simp [h]

theorem schema_of_ne_field (h : role ≠ .field) : m.schema sc role =
    (m.elementSchema sc).andThen (m.arrayOps ++ m.effectiveDefault.toList.map .default) := by
  rw [schema, optionalOps_of_ne_field h, List.append_nil]

theorem schema_variant (sc : Scope) (m : Member) : m.schema sc .variant =
    (m.elementSchema sc).andThen (m.arrayOps ++ m.effectiveDefault.toList.map .default) :=
  schema_of_ne_field nofun

theorem schema_element (sc : Scope) (m : Member) :
    m.element.schema sc .variant = m.elementSchema sc := by
  have hdefault : m.element.effectiveDefault = none := by
    rw [effectiveDefault_eq_none_iff]
    rintro value ⟨⟨⟩⟩
  have hops : m.element.arrayOps ++ m.element.effectiveDefault.toList.map .default = [] := by
    rw [hdefault]
    rfl
  -- Neither the array flag nor the default is looked at before the element is complete.
  have helement : m.element.elementSchema sc = m.elementSchema sc := rfl
  rw [schema_variant, hops, helement]
  exact Schema.andThen_nil _

theorem hasDefault_schema_variant (sc : Scope) (m : Member) :
    (m.schema sc .variant).hasDefault = m.effectiveDefault.isSome := by
  have hbefore : ((m.elementSchema sc).ops ++ m.arrayOps).any Op.isDefault = false := by
    apply any_eq_false_of_isClosing
    intro op h
    cases op with
    | default => rfl
    | _ => cases h
  rw [Schema.hasDefault, schema_variant, Schema.andThen, ← List.append_assoc, List.any_append,
    hbefore, Bool.false_or]
  cases m.effectiveDefault <;> rfl

theorem schema_field (sc : Scope) (m : Member) : m.schema sc .field =
    if m.isRequired || (m.schema sc .variant).hasDefault then m.schema sc .variant
    else (m.schema sc .variant).andThen [.optional] := by
  rw [hasDefault_schema_variant, schema_variant, schema, optionalOps]
  cases m.isRequired <;> cases m.effectiveDefault <;> simp [Schema.andThen]

/-- Outside the fields of a record the role of a member makes no difference to its schema.  As a
field a member is optional besides, unless it is required or its schema has a default.  The schema
is that of one element, followed by the array operation with the bounds on the number of items if
the member is an array, and by the default if it takes effect. -/
theorem schema_composed (sc : Scope) (m : Member) :
    (m.schema sc .mapKey = m.schema sc .variant ∧ m.schema sc .mapValue = m.schema sc .variant) ∧
    ((m.schema sc .variant).isOptional = false ∧ m.schema sc .field =
      if m.isRequired || (m.schema sc .variant).hasDefault then m.schema sc .variant
      else (m.schema sc .variant).andThen [.optional]) ∧
    ((m.schema sc .variant).hasDefault = true ↔ ∃ value, m.KeepsDefault value) ∧
    (∀ value, m.KeepsDefault value → m.schema sc .variant = (m.element.schema sc .variant).andThen
      ((if m.isArray then .array :: (CountBounds.ofLast Rule.items? m.rules).ops else []) ++
        [.default value])) ∧
    ((∀ value, ¬ m.KeepsDefault value) → m.schema sc .variant =
      (m.element.schema sc .variant).andThen
        (if m.isArray then .array :: (CountBounds.ofLast Rule.items? m.rules).ops else [])) := by
  have hoptional : (m.schema sc .variant).isOptional = false := by
    rw [← Bool.not_eq_true, isOptional_schema_iff]
    exact fun h => Role.noConfusion h.1
  have hparts : m.schema sc .variant = (m.element.schema sc .variant).andThen
      ((if m.isArray then .array :: (CountBounds.ofLast Rule.items? m.rules).ops else []) ++
        m.effectiveDefault.toList.map .default) := by
    rw [schema_variant, schema_element, arrayOps, Rule.itemBounds_eq]
  refine ⟨?_, ⟨hoptional, schema_field sc m⟩, ?_, ?_, ?_⟩
  · rw [schema_variant]
    exact ⟨schema_of_ne_field nofun, schema_of_ne_field nofun⟩
  · simp only [hasDefault_schema_variant, Option.isSome_iff_exists, effectiveDefault_eq_some_iff]
  · intro value h
    rw [hparts, effectiveDefault_eq_some_iff.mpr h]
    rfl
  · intro h
    rw [hparts, effectiveDefault_eq_none_iff.mpr h, Option.toList_none, List.map_nil,
      List.append_nil]

/-- A list of numbers whose default takes effect, and a list of dates whose default does not. -/
theorem schema_composed_of_two_lists :
    let sizes : Member := { Member.optional "sizes" (.primitive .integer) with
      isArray := true, default := some (.array []),
      rules := [.items ⟨some 1, some 9⟩, .items ⟨none, some 5⟩] }
    let days : Member := { Member.optional "days" (.primitive .date) with
      isArray := true, default := some (.array []) }
    sizes.schema ⟨"Shop", []⟩ .field =
        ⟨.number false, [.int, .array, .nonempty, .max 5, .default (.array [])]⟩ ∧
      days.schema ⟨"Shop", []⟩ .field = ⟨.date true, [.array, .optional]⟩ := by
  intro sizes days
  obtain ⟨-, ⟨-, hsizes⟩, -, hkept, -⟩ := schema_composed ⟨"Shop", []⟩ sizes
  obtain ⟨-, ⟨-, hdays⟩, -, -, hdropped⟩ := schema_composed ⟨"Shop", []⟩ days
  constructor
  · rw [hsizes, hkept (.array []) ⟨rfl, rfl, _, rfl, Or.inr (Or.inr rfl)⟩]
    rfl
  · rw [hdays, hdropped]
    · rfl
    · rintro value ⟨-, -, p, ⟨⟩, hp⟩
      revert hp
      decide

end Member

end ServiceSchema
