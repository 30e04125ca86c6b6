import ServiceSchema.Proofs.Schema.References
/-!
# Chains of operations

The operations of a schema are calls on what the calls before them return, so each has to find a
receiver that has it.  The chain of a member has three parts, in this order: constraints on one
element, the array operation with its bounds, and a default or the optionality.  The chain of a
record has a catch-all and refinements of its keys.  `Op.Fits` says of one operation that it stands
where it may stand, and `forall_place_append` puts the parts of a chain together.
-/

namespace ServiceSchema

namespace Schema

/-! ## Where an operation may stand -/

/-- Defaults and optionality end a chain. -/
def Op.isClosing : Op → Bool
  | .default _ => true
  | .optional => true
  | _ => false

/-- Refinements of the keys of a record come in the order of their ranks; other operations have
rank zero. -/
def Op.keyRank : Op → Nat
  | .minKeys .. => 1
  | .maxKeys .. => 2
  | .keyCheck .. => 3
  | _ => 0

/-- An operation may follow a base and the operations `before`, and `after` may follow it. -/
def Op.Fits (base : Base) (before : List Op) (op : Op) (after : List Op) : Prop :=
  match op with
  | .int | .gt _ | .gte _ | .lt _ | .lte _ | .positive | .nonnegative | .negative | .nonpositive
  | .multipleOf _ => (∃ coerce, base = .number coerce) ∧ .array ∉ before
  | .length _ | .regex _ => base = .string ∧ .array ∉ before
  | .min _ | .max _ | .nonempty => base = .string ∨ .array ∈ before
  | .array => .array ∉ before
  | .default _ | .optional => after = [] ∧ ∀ p ∈ before, p.isClosing = false
  | .catchall _ => (∃ fields, base = .object fields) ∧ before = []
  | .minKeys .. => ∀ p ∈ before, p.keyRank < 1
  | .maxKeys .. => ∀ p ∈ before, p.keyRank < 2
  | .keyCheck .. => ∀ p ∈ before, p.keyRank < 3

/-- Operations on one element of a base. -/
def Op.Constrains (base : Base) : Op → Prop
  | .int | .gt _ | .gte _ | .lt _ | .lte _ | .positive | .nonnegative | .negative | .nonpositive
  | .multipleOf _ => ∃ coerce, base = .number coerce
  | .length _ | .regex _ | .min _ | .max _ | .nonempty => base = .string
  | _ => False

def Op.isSize : Op → Bool
  | .min _ => true
  | .max _ => true
  | .nonempty => true
  | _ => false

variable {base : Base} {op : Op} {before after xs ys : List Op}

theorem Op.Constrains.fits (h : op.Constrains base) (hbefore : .array ∉ before) :
    op.Fits base before after := by
  cases op with
  | int | gt | gte | lt | lte | positive | nonnegative | negative | nonpositive | multipleOf =>
      exact ⟨h, hbefore⟩
  | length | regex => exact ⟨h, hbefore⟩
  | min | max | nonempty => exact Or.inl h
  | default | array | optional | catchall | minKeys | maxKeys | keyCheck => exact h.elim

theorem Op.Constrains.ne_array (h : op.Constrains base) : op ≠ .array := by
  rintro rfl
  exact h

theorem Op.fits_of_isSize (h : op.isSize = true) (hbefore : .array ∈ before) :
    op.Fits base before after := by
  cases op with
  | min | max | nonempty => exact Or.inr hbefore
  | _ => cases h

theorem Op.fits_of_isClosing (h : op.isClosing = true)
    (hbefore : ∀ p ∈ before, p.isClosing = false) : op.Fits base before [] := by
  cases op with
  | default | optional => exact ⟨rfl, hbefore⟩
  | _ => cases h

/-- The places in a list of two parts are those in the first and those in the second. -/
theorem forall_place_append {P : List Op → Op → List Op → Prop}
    (hxs : ∀ before op after, xs = before ++ op :: after → P before op (after ++ ys))
    (hys : ∀ before op after, ys = before ++ op :: after → P (xs ++ before) op after)
    (h : xs ++ ys = before ++ op :: after) : P before op after := by
  rcases List.append_eq_append_iff.mp h with ⟨middle, rfl, hmiddle⟩ | ⟨middle, hmiddle, hafter⟩
  · exact hys middle op after hmiddle
  · cases middle with
    | nil =>
        rw [List.append_nil] at hmiddle
        rw [← List.append_nil before, ← hmiddle]
        exact hys [] op after hafter.symm
    | cons p middle =>
        obtain ⟨rfl, rfl⟩ := List.cons_eq_cons.mp hafter
        exact hxs before op middle hmiddle

end Schema

/-! ## Members -/

open Schema (Op Base)

namespace CountBounds

theorem isSize_of_mem_ops {b : CountBounds} {op : Op} (h : op ∈ b.ops) : op.isSize = true := by
  rcases List.mem_append.mp h with h | h
  · obtain ⟨n, -, rfl⟩ := List.mem_map.mp h
    unfold minOp
    split <;> rfl
  · obtain ⟨n, -, rfl⟩ := List.mem_map.mp h
    rfl

theorem constrains_of_mem_lengthOps {b : CountBounds} {op : Op} (h : op ∈ b.lengthOps) :
    op.Constrains .string := by
  have hsize : op ∈ b.ops → op.Constrains .string := by
    intro hop
    have := isSize_of_mem_ops hop
    cases op with
    | min | max | nonempty => rfl
    | _ => cases this
  unfold lengthOps at h
  split at h
  · split at h
    · rw [List.mem_singleton.mp h]
      rfl
    · exact hsize h
  · exact hsize h

end CountBounds

theorem RangeBounds.constrains_of_mem_ops {b : RangeBounds} {op : Op} (h : op ∈ b.ops)
    (coerce : Bool) : op.Constrains (.number coerce) := by
  simp only [ops, List.mem_append, List.mem_map] at h
  rcases h with ((⟨n, -, rfl⟩ | ⟨n, -, rfl⟩) | ⟨n, -, rfl⟩) | ⟨n, -, rfl⟩
  · unfold gtOp
    split <;> exact ⟨coerce, rfl⟩
  · unfold gteOp
    split <;> exact ⟨coerce, rfl⟩
  · unfold ltOp
    split <;> exact ⟨coerce, rfl⟩
  · unfold lteOp
    split <;> exact ⟨coerce, rfl⟩

namespace Member

variable {sc : Scope} {role : Role} {m : Member} {op : Op}

theorem constrains_of_mem_stringSchema (h : op ∈ m.stringSchema.ops) :
    op.Constrains m.stringSchema.base := by
  unfold stringSchema at h ⊢
  split at h
  · exact absurd h List.not_mem_nil
  split at h
  · exact absurd h List.not_mem_nil
  · rcases List.mem_append.mp h with h | h
    · exact CountBounds.constrains_of_mem_lengthOps h
    · obtain ⟨pattern, -, rfl⟩ := List.mem_map.mp h
      rfl

theorem constrains_of_mem_numberSchema {integral : Bool} (h : op ∈ (m.numberSchema integral).ops) :
    op.Constrains (m.numberSchema integral).base := by
  unfold numberSchema at h ⊢
  split at h
  · exact absurd h List.not_mem_nil
  · simp only [List.mem_append, List.mem_map] at h
    rcases h with (h | h) | ⟨n, -, rfl⟩
    · cases integral with
      | true =>
          rw [List.mem_singleton.mp h]
          exact ⟨m.coerces, rfl⟩
      | false => exact absurd h List.not_mem_nil
    · exact RangeBounds.constrains_of_mem_ops h m.coerces
    · exact ⟨m.coerces, rfl⟩

theorem constrains_of_mem_elementSchema (h : op ∈ (m.elementSchema sc).ops) :
    op.Constrains (m.elementSchema sc).base := by
  unfold elementSchema at h ⊢
  split at h
  · next p _ =>
      cases p with
      | string => exact constrains_of_mem_stringSchema h
      | number | float | double => exact constrains_of_mem_numberSchema h
      | integer | long => exact constrains_of_mem_numberSchema h
      | boolean =>
          change op ∈ m.booleanSchema.ops at h
          unfold booleanSchema at h
          split at h <;> exact absurd h List.not_mem_nil
      | null | date | dateTime | binary | untyped => exact absurd h List.not_mem_nil
  · unfold Scope.reference at h
    split at h <;> exact absurd h List.not_mem_nil

theorem array_notMem_elementSchema : .array ∉ (m.elementSchema sc).ops := fun h =>
  (constrains_of_mem_elementSchema h).ne_array rfl

/-- What ends the chain of a member: a default, the optionality, or nothing. -/
def closingOps (role : Role) (m : Member) : List Op :=
  m.effectiveDefault.toList.map .default ++ m.optionalOps role

theorem ops_schema : (m.schema sc role).ops =
    (m.elementSchema sc).ops ++ (m.arrayOps ++ m.closingOps role) := by
  simp only [schema, Schema.andThen, closingOps, List.append_assoc]

theorem closingOps_cases (role : Role) (m : Member) :
    m.closingOps role = [] ∨ (∃ value, m.closingOps role = [.default value]) ∨
      m.closingOps role = [.optional] ∧ role = .field := by
  unfold closingOps optionalOps
  cases m.effectiveDefault with
  | some value => exact Or.inr (Or.inl ⟨value, by simp⟩)
  | none =>
      by_cases hfield : role = .field
      · cases m.isRequired <;> simp [hfield]
      · simp [hfield]

theorem isSize_or_eq_array_of_mem_arrayOps (h : op ∈ m.arrayOps) :
    op = .array ∨ op.isSize = true := by
  unfold arrayOps at h
  split at h
  · exact (List.mem_cons.mp h).imp id CountBounds.isSize_of_mem_ops
  · exact absurd h List.not_mem_nil

theorem fits_arrayOps {base : Base} {pre before after rest : List Op} (hpre : .array ∉ pre)
    (h : m.arrayOps = before ++ op :: after) : op.Fits base (pre ++ before) rest := by
  unfold arrayOps at h
  split at h
  · cases before with
    | nil =>
        obtain ⟨rfl, -⟩ := List.cons_eq_cons.mp h
        rwa [List.append_nil]
    | cons first before =>
        obtain ⟨rfl, hafter⟩ := List.cons_eq_cons.mp h
        have hop : op ∈ (Rule.itemBounds m.rules).ops := by
          rw [hafter]
          exact List.mem_append_right _ List.mem_cons_self
        refine Schema.Op.fits_of_isSize (CountBounds.isSize_of_mem_ops hop) ?_
        exact List.mem_append_right _ List.mem_cons_self
  · exact absurd h (by simp)

theorem isClosing_eq_false_of_mem {p : Op}
    (h : p ∈ (m.elementSchema sc).ops ++ m.arrayOps) : p.isClosing = false := by
  rcases List.mem_append.mp h with h | h
  · have := constrains_of_mem_elementSchema h
    cases p with
    | default | optional => exact this.elim
    | _ => rfl
  · rcases isSize_or_eq_array_of_mem_arrayOps h with rfl | hsize
    · rfl
    · cases p with
      | default | optional => cases hsize
      | _ => rfl

theorem any_eq_false_of_isClosing {p : Op → Bool} (hp : ∀ op, p op = true → op.isClosing = true) :
    ((m.elementSchema sc).ops ++ m.arrayOps).any p = false := by
  rw [List.any_eq_false]
  intro op hop h
  have hclosing : op.isClosing = true := hp op h
  rw [isClosing_eq_false_of_mem hop] at hclosing
  exact Bool.false_ne_true hclosing

theorem fits_closingOps {base : Base} {pre before after : List Op}
    (hpre : ∀ p ∈ pre, p.isClosing = false) (h : m.closingOps role = before ++ op :: after) :
    op.Fits base (pre ++ before) after := by
  have hsingle : ∀ closing : Op, closing.isClosing = true → [closing] = before ++ op :: after →
      op.Fits base (pre ++ before) after := by
    intro closing hclosing hsplit
    obtain ⟨rfl, rfl, rfl⟩ : before = [] ∧ op = closing ∧ after = [] := by
      simpa [List.singleton_eq_append_iff] using hsplit
    rw [List.append_nil]
    exact Schema.Op.fits_of_isClosing hclosing hpre
  rcases closingOps_cases role m with hnone | ⟨value, hdefault⟩ | ⟨hoptional, -⟩
  · rw [hnone] at h
    exact absurd h (by simp)
  · exact hsingle (.default value) rfl (hdefault ▸ h)
  · exact hsingle .optional rfl (hoptional ▸ h)

/-- In the schema of a member every operation stands where it may stand. -/
theorem fits_schema {before after : List Op}
    (h : (m.schema sc role).ops = before ++ op :: after) :
    op.Fits (m.schema sc role).base before after := by
  change op.Fits (m.elementSchema sc).base before after
  rw [ops_schema] at h
  refine Schema.forall_place_append (P := fun before op after => op.Fits _ before after) ?_ ?_ h
  · intro before op after hsplit
    have hop : op ∈ (m.elementSchema sc).ops := by simp [hsplit]
    refine (constrains_of_mem_elementSchema hop).fits fun harray => ?_
    have hnone : .array ∉ (m.elementSchema sc).ops := array_notMem_elementSchema
    exact hnone (by simp [hsplit, harray])
  · intro before op after hsplit
    refine Schema.forall_place_append
      (P := fun before op after => op.Fits _ ((m.elementSchema sc).ops ++ before) after)
      ?_ ?_ hsplit
    · intro before op after harray
      exact fits_arrayOps array_notMem_elementSchema harray
    · intro before op after hclosing
      rw [← List.append_assoc]
      exact fits_closingOps (fun p hp => isClosing_eq_false_of_mem hp) hclosing

theorem isClosing_of_mem_closingOps (h : op ∈ m.closingOps role) :
    op.isClosing = true ∧ (op = .optional → role = .field) := by
  rcases closingOps_cases role m with hnone | ⟨value, hdefault⟩ | ⟨hoptional, hfield⟩
  · rw [hnone] at h
    exact absurd h List.not_mem_nil
  · rw [hdefault, List.mem_singleton] at h
    subst h
    exact ⟨rfl, nofun⟩
  · rw [hoptional, List.mem_singleton] at h
    subst h
    exact ⟨rfl, fun _ => hfield⟩

theorem cases_of_mem_schema (h : op ∈ (m.schema sc role).ops) :
    op.Constrains (m.schema sc role).base ∨ (op = .array ∨ op.isSize = true) ∨
      op.isClosing = true ∧ (op = .optional → role = .field) := by
  rw [ops_schema] at h
  rcases List.mem_append.mp h with h | h
  · exact Or.inl (constrains_of_mem_elementSchema h)
  rcases List.mem_append.mp h with h | h
  · exact Or.inr (Or.inl (isSize_or_eq_array_of_mem_arrayOps h))
  · exact Or.inr (Or.inr (isClosing_of_mem_closingOps h))

/-- Exactly the schemas of arrays have the array operation. -/
theorem array_mem_schema_iff : .array ∈ (m.schema sc role).ops ↔ m.isArray = true := by
  have hclosing : .array ∉ m.closingOps role := fun h => by
    cases (isClosing_of_mem_closingOps h).1
  have harray : .array ∈ m.arrayOps ↔ m.isArray = true := by
    unfold arrayOps
    cases m.isArray <;> simp
  simp only [ops_schema, List.mem_append, array_notMem_elementSchema, hclosing, harray, false_or,
    or_false]

theorem keyRank_eq_zero_of_mem_schema (h : op ∈ (m.schema sc role).ops) : op.keyRank = 0 := by
  rcases cases_of_mem_schema h with hconstrains | (rfl | hsize) | ⟨hclosing, -⟩
  · cases op with
    | minKeys | maxKeys | keyCheck => exact hconstrains.elim
    | _ => rfl
  · rfl
  · cases op with
    | minKeys | maxKeys | keyCheck => cases hsize
    | _ => rfl
  · cases op with
    | minKeys | maxKeys | keyCheck => cases hclosing
    | _ => rfl

/-- Only a field can be optional. -/
theorem eq_field_of_optional_mem (h : .optional ∈ (m.schema sc role).ops) : role = .field := by
  rcases cases_of_mem_schema h with hconstrains | (harray | hsize) | ⟨-, hfield⟩
  · exact hconstrains.elim
  · cases harray
  · cases hsize
  · exact hfield rfl

end Member

/-! ## Records -/

namespace Record

variable {sc : Scope} {r : Record} {op : Op}

/-- Each kind of operation occurs at most once, in a fixed order. -/
theorem pairwise_keyRank (sc : Scope) (r : Record) :
    (r.schema sc).ops.Pairwise fun p q => p.keyRank < q.keyRank := by
  have hcatchall : ((r.catchallOps sc).map Op.keyRank).Sublist [0] := by
    unfold catchallOps
    split
    · split <;> simp [Op.keyRank]
    · simp
  have hmin : ((r.keyBounds.min.toList.map (minKeysOp sc.owner)).map Op.keyRank).Sublist [1] := by
    cases r.keyBounds.min <;> simp [minKeysOp, Op.keyRank]
  have hmax : ((r.keyBounds.max.toList.map (maxKeysOp sc.owner)).map Op.keyRank).Sublist [2] := by
    cases r.keyBounds.max <;> simp [maxKeysOp, Op.keyRank]
  have hcheck : ((r.keyCheckOps sc).map Op.keyRank).Sublist [3] := by
    unfold keyCheckOps
    split
    · split <;> simp [Op.keyRank]
    · simp
  have hranks : ((r.schema sc).ops.map Op.keyRank).Sublist [0, 1, 2, 3] := by
    simp only [schema, List.map_append]
    exact ((hcatchall.append hmin).append hmax).append hcheck
  rw [← List.pairwise_map (R := (· < ·))]
  exact List.Pairwise.sublist hranks (by decide)

theorem eq_catchall_of_keyRank_eq_zero (h : op ∈ (r.schema sc).ops) (hrank : op.keyRank = 0) :
    (∃ value, op = .catchall value) ∧ ∃ fields, (r.schema sc).base = .object fields := by
  rcases mem_ops_schema_iff.mp h with hcatchall | ⟨n, -, rfl⟩ | ⟨n, -, rfl⟩ | hcheck
  · obtain ⟨x, -, hknown, -, rfl⟩ := mem_catchallOps_iff.mp hcatchall
    refine ⟨⟨_, rfl⟩, r.fields sc, ?_⟩
    change r.base sc = _
    rw [base, List.isEmpty_eq_false_iff.mpr hknown, if_neg Bool.false_ne_true]
  · cases hrank
  · cases hrank
  · obtain ⟨x, -, -, rfl⟩ := mem_keyCheckOps_iff.mp hcheck
    cases hrank

/-- In the schema of a record every operation stands where it may stand. -/
theorem fits_schema {before after : List Op} (h : (r.schema sc).ops = before ++ op :: after) :
    op.Fits (r.schema sc).base before after := by
  have hmem : op ∈ (r.schema sc).ops := by simp [h]
  have hbefore : ∀ p ∈ before, p.keyRank < op.keyRank := by
    intro p hp
    have hpairs := pairwise_keyRank sc r
    rw [h, List.pairwise_append] at hpairs
    exact hpairs.2.2 p hp op List.mem_cons_self
  by_cases hrank : op.keyRank = 0
  · obtain ⟨⟨value, rfl⟩, hobject⟩ := eq_catchall_of_keyRank_eq_zero hmem hrank
    refine ⟨hobject, List.eq_nil_iff_forall_not_mem.mpr fun p hp => ?_⟩
    exact absurd (hbefore p hp) (by simp [Op.keyRank])
  · cases op with
    | minKeys | maxKeys | keyCheck => exact hbefore
    | _ => exact absurd rfl hrank

theorem optional_notMem_schema : .optional ∉ (r.schema sc).ops := fun h => by
  obtain ⟨⟨value, hcatchall⟩, -⟩ := eq_catchall_of_keyRank_eq_zero h rfl
  cases hcatchall

end Record

/-! ## Entities -/

namespace Schema

/-- Where a schema stands in a definition. -/
inductive Place where
  /-- The schema of the definition itself. -/
  | definition
  /-- The schema of a field of the object that the definition is. -/
  | field
  /-- Any other schema inside. -/
  | inner
deriving DecidableEq

/-- A schema stands at some place of a definition. -/
inductive StandsAt (s : Schema) : Place → Schema → Prop where
  | definition : StandsAt s .definition s
  | field {fields : List Field} {f : Field} :
      s.base = .object fields → f ∈ fields → StandsAt s .field f.schema
  | base {t : Schema} :
      (∀ fields, s.base ≠ .object fields) → t ∈ s.base.nested → StandsAt s .inner t
  | op {op : Op} {t : Schema} : op ∈ s.ops → t ∈ op.nested → StandsAt s .inner t
  | deeper {place : Place} {t u : Schema} :
      StandsAt s place t → place ≠ .definition → u ∈ t.nested → StandsAt s .inner u

/-- What stands directly inside a schema has a place in each definition that the schema has a place
in. -/
theorem StandsAt.nested {s t u : Schema} {place : Place} (h : StandsAt s place t)
    (hu : u ∈ t.nested) : ∃ place, StandsAt s place u := by
  by_cases hplace : place = .definition
  · subst hplace
    cases h
    rcases List.mem_append.mp hu with hbase | hops
    · by_cases hobject : ∃ fields, s.base = .object fields
      · obtain ⟨fields, hfields⟩ := hobject
        rw [hfields] at hbase
        obtain ⟨f, hf, rfl⟩ := List.mem_map.mp hbase
        exact ⟨.field, .field hfields hf⟩
      · exact ⟨.inner, .base (not_exists.mp hobject) hbase⟩
    · obtain ⟨op, hop, hu⟩ := List.mem_flatMap.mp hops
      exact ⟨.inner, .op hop hu⟩
  · exact ⟨.inner, .deeper h hplace hu⟩

/-- Exactly the schemas inside a definition have a place in it. -/
theorem exists_standsAt_iff {s t : Schema} : (∃ place, StandsAt s place t) ↔ Within t s := by
  constructor
  · rintro ⟨place, h⟩
    induction h with
    | definition => exact .self s
    | field hfields hf =>
        refine .nested (List.mem_append_left _ ?_) (.self _)
        rw [hfields]
        exact List.mem_map_of_mem hf
    | base _ ht => exact .nested (List.mem_append_left _ ht) (.self _)
    | op hop ht =>
        exact .nested (List.mem_append_right _ (List.mem_flatMap.mpr ⟨_, hop, ht⟩)) (.self _)
    | deeper _ _ hu ih => exact (Within.nested hu (.self _)).trans ih
  · intro h
    suffices ∀ u place, StandsAt u place s → ∃ place, StandsAt u place t from this s _ .definition
    induction h with
    | self => exact fun u place hs => ⟨place, hs⟩
    | nested hu _ ih =>
        intro v place hs
        obtain ⟨place, hplace⟩ := hs.nested hu
        exact ih v place hplace

end Schema

namespace Entity

open Schema

variable {c : List String} {e : Entity} {place : Place} {t : Schema}

/-- Of the schemas that a base nests, only fields have a schema that a member has as a field. -/
theorem exists_member_of_mem_base (hbase : ∀ fields, (e.schema c).base ≠ .object fields)
    (h : t ∈ (e.schema c).base.nested) :
    t = .ofBase .any ∨ ∃ m : Member, ∃ role, role ≠ .field ∧ t = m.schema ⟨e.name, c⟩ role := by
  obtain ⟨name, kind⟩ := e
  cases kind with
  | record r =>
      have hknown : r.knownKeys = [] := by
        by_contra hknown
        refine hbase (r.fields ⟨name, c⟩) (if_neg ?_)
        rwa [List.isEmpty_iff]
      rcases Record.cases_of_mem_base h with ⟨hnot, -⟩ | ⟨-, ⟨x, -, ht⟩ | hany⟩
      · exact absurd hknown hnot
      · exact Or.inr ⟨x.value, .mapValue, by decide, ht⟩
      · exact Or.inl hany
  | parameterBag b => exact absurd rfl (hbase _)
  | union u =>
      obtain ⟨m, -, heq⟩ := exists_variant_of_mem_nested (List.mem_append_left _ h)
      exact Or.inr ⟨m, .variant, by decide, heq⟩
  | enum values => exact absurd h List.not_mem_nil

theorem exists_member_of_mem_op {op : Op} (hop : op ∈ (e.schema c).ops) (ht : t ∈ op.nested) :
    ∃ m : Member, ∃ role, role ≠ .field ∧ t = m.schema ⟨e.name, c⟩ role := by
  obtain ⟨name, kind⟩ := e
  cases kind with
  | record r =>
      rcases Record.cases_of_mem_ops hop ht with ⟨x, -, -, heq⟩ | ⟨x, -, heq⟩
      · exact ⟨x.value, .mapValue, by decide, heq⟩
      · exact ⟨x.key, .mapKey, by decide, heq⟩
  | parameterBag b => exact absurd hop List.not_mem_nil
  | union u =>
      have hnested : t ∈ (u.schema ⟨name, c⟩).nested :=
        List.mem_append_right _ (List.mem_flatMap.mpr ⟨op, hop, ht⟩)
      obtain ⟨m, -, heq⟩ := exists_variant_of_mem_nested hnested
      exact ⟨m, .variant, by decide, heq⟩
  | enum values => exact absurd hop List.not_mem_nil

/-- Below the definition there are only schemas of members and the open schema, and only at the
place of a field those that a member has as a field. -/
theorem exists_member_of_standsAt (h : StandsAt (e.schema c) place t)
    (hplace : place ≠ .definition) :
    t = .ofBase .any ∨
      ∃ m : Member, ∃ role, (role = .field → place = .field) ∧ t = m.schema ⟨e.name, c⟩ role := by
  induction h with
  | definition => exact absurd rfl hplace
  | @field fields f hfields hf =>
      have hmem : f.schema ∈ (e.schema c).nested := by
        refine List.mem_append_left _ ?_
        rw [hfields]
        exact List.mem_map_of_mem hf
      rcases cases_of_mem_nested_schema hmem with ⟨m, -, role, heq⟩ | hany
      · exact Or.inr ⟨m, role, fun _ => rfl, heq⟩
      · exact Or.inl hany
  | base hbase ht =>
      refine (exists_member_of_mem_base hbase ht).imp id ?_
      rintro ⟨m, role, hrole, heq⟩
      exact ⟨m, role, fun hfield => absurd hfield hrole, heq⟩
  | op hop ht =>
      obtain ⟨m, role, hrole, heq⟩ := exists_member_of_mem_op hop ht
      exact Or.inr ⟨m, role, fun hfield => absurd hfield hrole, heq⟩
  | deeper _ hne hu ih =>
      -- Neither the open schema nor the schema of a member nests anything.
      rcases ih hne with rfl | ⟨m, role, -, rfl⟩
      · exact absurd hu List.not_mem_nil
      · rw [m.nested_schema] at hu
        exact absurd hu List.not_mem_nil

theorem definition_cases (c : List String) (e : Entity) :
    (∃ r, e.kind = .record r ∧ e.schema c = r.schema ⟨e.name, c⟩) ∨
      (∃ m : Member, e.schema c = m.schema ⟨e.name, c⟩ .variant) ∨ (e.schema c).ops = [] := by
  obtain ⟨name, kind⟩ := e
  cases kind with
  | record r => exact Or.inl ⟨r, rfl, rfl⟩
  | parameterBag b => exact Or.inr (Or.inr rfl)
  | union u =>
      refine Or.inr ?_
      change (∃ m : Member, u.schema ⟨name, c⟩ = m.schema ⟨name, c⟩ .variant) ∨
        (u.schema ⟨name, c⟩).ops = []
      unfold Union.schema
      split
      · next variant _ => exact Or.inl ⟨variant, rfl⟩
      · exact Or.inr rfl
      · exact Or.inr rfl
      · cases u.discriminator <;> exact Or.inr rfl
  | enum values => exact Or.inr (Or.inr rfl)

theorem fits_definition {before after : List Op} {op : Op}
    (h : (e.schema c).ops = before ++ op :: after) : op.Fits (e.schema c).base before after := by
  rcases definition_cases c e with ⟨r, -, heq⟩ | ⟨m, heq⟩ | hnone
  · rw [heq] at h ⊢
    exact Record.fits_schema h
  · rw [heq] at h ⊢
    exact Member.fits_schema h
  · rw [hnone] at h
    exact absurd h (by simp)

theorem exists_record_of_keyRank_pos {op : Op} (hop : op ∈ (e.schema c).ops)
    (hrank : 0 < op.keyRank) : ∃ r, e.kind = .record r := by
  rcases definition_cases c e with ⟨r, hkind, -⟩ | ⟨m, heq⟩ | hnone
  · exact ⟨r, hkind⟩
  · rw [heq] at hop
    exact absurd (Member.keyRank_eq_zero_of_mem_schema hop) hrank.ne'
  · rw [hnone] at hop
    exact absurd hop List.not_mem_nil

theorem optional_notMem_definition : .optional ∉ (e.schema c).ops := by
  intro hop
  rcases definition_cases c e with ⟨r, -, heq⟩ | ⟨m, heq⟩ | hnone
  · rw [heq] at hop
    exact Record.optional_notMem_schema hop
  · rw [heq] at hop
    cases Member.eq_field_of_optional_mem hop
  · rw [hnone] at hop
    exact absurd hop List.not_mem_nil

/-- Wherever a schema stands in a definition, each of its operations follows a receiver that has
it.  The keys are refined only at the top of a record's definition, and only fields are optional. -/
theorem schema_chained (c : List String) (e : Entity) :
    (∀ t, Within t (e.schema c) → ∃ place, StandsAt (e.schema c) place t) ∧
    ∀ place t, StandsAt (e.schema c) place t →
      (∀ before op after, t.ops = before ++ op :: after → op.Fits t.base before after) ∧
      (∀ op ∈ t.ops, 0 < op.keyRank → place = .definition ∧ ∃ r, e.kind = .record r) ∧
      (.optional ∈ t.ops → place = .field) := by
  refine ⟨fun t => exists_standsAt_iff.mpr, ?_⟩
  intro place t h
  by_cases hplace : place = .definition
  · subst hplace
    cases h
    exact ⟨fun _ _ _ => fits_definition,
      fun op hop hrank => ⟨rfl, exists_record_of_keyRank_pos hop hrank⟩,
      fun hop => absurd hop optional_notMem_definition⟩
  rcases exists_member_of_standsAt h hplace with rfl | ⟨m, role, hrole, rfl⟩
  · exact ⟨fun _ _ _ hsplit => absurd hsplit (by simp [ofBase]),
      fun op hop => absurd hop List.not_mem_nil, fun hop => absurd hop List.not_mem_nil⟩
  · refine ⟨fun _ _ _ => Member.fits_schema, fun op hop hrank => ?_, fun hop => ?_⟩
    · exact absurd (Member.keyRank_eq_zero_of_mem_schema hop) hrank.ne'
    · exact hrole (Member.eq_field_of_optional_mem hop)

/-- The bounds on the items of an array of whole numbers follow the array operation. -/
theorem schema_chained_of_array_field :
    let scores : Member :=
      { Member.optional "scores" (.primitive .integer) with
        isArray := true, rules := [.items ⟨some 1, some 9⟩, .length ⟨none, some 3⟩] }
    let lead : MapExtension :=
      ⟨{ Member.required "" (.primitive .string) with rules := [.pattern "^x-"] },
        .required "" (.named "Team"), ["lead"]⟩
    let team : Entity := .map "Team" ⟨[scores], some lead, [.keys ⟨some 2, some 5⟩]⟩
    let field : Schema := ⟨.number false, [.int, .array, .nonempty, .max 9, .optional]⟩
    StandsAt (team.schema []) .field field ∧
      (Op.nonempty).Fits (.number false) [.int, .array] [.max 9, .optional] ∧
      ((team.schema []).ops.map Op.keyRank) = [0, 1, 2, 3] := by
  intro scores lead team field
  have hbase : (team.schema []).base =
      .object [⟨"scores", field⟩, ⟨"lead", .lazyRef "Team"⟩] := rfl
  have hfield : StandsAt (team.schema []) .field field := .field hbase List.mem_cons_self
  exact ⟨hfield, ((schema_chained [] team).2 _ _ hfield).1 [.int, .array] _ _ rfl, rfl⟩

end Entity

end ServiceSchema
