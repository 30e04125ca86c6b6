import ServiceSchema.Schema.Entity
/-!
# Nested schemas

A schema nests further schemas in its base (fields, record values, variants) and in its operations
(catch-alls and key checks).  The schema of a member nests nothing.
-/

namespace ServiceSchema.Schema

def Base.nested : Base → List Schema
  | .object fields => fields.map Field.schema
  | .record value => [value]
  | .union variants => variants
  | .discriminatedUnion _ variants => variants
  | _ => []

def Op.nested : Op → List Schema
  | .catchall value => [value]
  | .keyCheck key _ => [key]
  | _ => []

def nested (s : Schema) : List Schema := s.base.nested ++ s.ops.flatMap Op.nested

/-- A schema is another one or stands inside it, at any depth. -/
inductive Within : Schema → Schema → Prop where
  | self (s : Schema) : Within s s
  | nested {t u s : Schema} : u ∈ s.nested → Within t u → Within t s

def RefersTo (s : Schema) (n : String) : Prop := ∃ t, Within t s ∧ t.base = .ref n

def RefersLazilyTo (s : Schema) (n : String) : Prop := ∃ t, Within t s ∧ t.base = .lazy n

def Base.target? : Base → Option String
  | .ref n => some n
  | .lazy n => some n
  | _ => none

theorem Base.sizeOf_lt_of_mem_nested {b : Base} {t : Schema} (h : t ∈ b.nested) :
    sizeOf t < sizeOf b := by
  cases b with
  | object fields =>
      obtain ⟨⟨name, schema⟩, hf, rfl⟩ := List.mem_map.mp h
      have := List.sizeOf_lt_of_mem hf
      simp only [Base.object.sizeOf_spec, Field.mk.sizeOf_spec] at this ⊢
      omega
  | record value =>
      rw [List.mem_singleton.mp h, Base.record.sizeOf_spec]
      omega
  | union variants =>
      have : sizeOf t < sizeOf variants := List.sizeOf_lt_of_mem h
      rw [Base.union.sizeOf_spec]
      omega
  | discriminatedUnion discriminator variants =>
      have : sizeOf t < sizeOf variants := List.sizeOf_lt_of_mem h
      rw [Base.discriminatedUnion.sizeOf_spec]
      omega
  | _ => exact absurd h List.not_mem_nil

theorem Op.sizeOf_lt_of_mem_nested {op : Op} {t : Schema} (h : t ∈ op.nested) :
    sizeOf t < sizeOf op := by
  cases op with
  | catchall value =>
      rw [List.mem_singleton.mp h, Op.catchall.sizeOf_spec]
      omega
  | keyCheck key known =>
      rw [List.mem_singleton.mp h, Op.keyCheck.sizeOf_spec]
      omega
  | _ => exact absurd h List.not_mem_nil

theorem sizeOf_lt_of_mem_nested {s t : Schema} (h : t ∈ s.nested) : sizeOf t < sizeOf s := by
  obtain ⟨base, ops⟩ := s
  rw [Schema.mk.sizeOf_spec]
  rcases List.mem_append.mp h with h | h
  · have : sizeOf t < sizeOf base := Base.sizeOf_lt_of_mem_nested h
    omega
  · obtain ⟨op, hop, h⟩ := List.mem_flatMap.mp h
    have : sizeOf t < sizeOf op := Op.sizeOf_lt_of_mem_nested h
    have : sizeOf op < sizeOf ops := List.sizeOf_lt_of_mem hop
    omega

theorem induction_nested {motive : Schema → Prop}
    (step : ∀ s : Schema, (∀ t ∈ s.nested, motive t) → motive s) (s : Schema) : motive s :=
  step s fun t ht =>
    have := sizeOf_lt_of_mem_nested ht
    induction_nested step t
termination_by sizeOf s

theorem Within.trans {t u s : Schema} (htu : Within t u) (hus : Within u s) : Within t s := by
  induction hus with
  | self => exact htu
  | nested hmem _ ih => exact .nested hmem ih

/-- What holds everywhere in a schema holds of the schema and everywhere in what it nests. -/
theorem forall_within_iff {P : Schema → Prop} {s : Schema} :
    (∀ t, Within t s → P t) ↔ P s ∧ ∀ t ∈ s.nested, ∀ u, Within u t → P u := by
  constructor
  · exact fun hs => ⟨hs s (.self s), fun t ht u hu => hs u (.nested ht hu)⟩
  · rintro ⟨hself, hnested⟩ t ht
    cases ht with
    | self => exact hself
    | nested hu htu => exact hnested _ hu t htu

theorem Within.eq_of_nested_eq_nil {t s : Schema} (h : Within t s) (hs : s.nested = []) :
    t = s := by
  cases h with
  | self => rfl
  | nested hu _ =>
      rw [hs] at hu
      exact absurd hu List.not_mem_nil

end ServiceSchema.Schema

namespace ServiceSchema

open Schema

/-! ## Members -/

theorem Schema.nested_eq_nil {s : Schema} (hbase : s.base.nested = [])
    (hops : ∀ op ∈ s.ops, op.nested = []) : s.nested = [] := by
  rw [Schema.nested, hbase, List.nil_append, List.flatMap_eq_nil_iff]
  exact hops

theorem Schema.nested_op_eq_nil {s : Schema} (h : s.nested = []) : ∀ op ∈ s.ops, op.nested = [] :=
  List.flatMap_eq_nil_iff.mp (List.append_eq_nil_iff.mp h).2

namespace CountBounds

theorem nested_of_mem_ops {b : CountBounds} {op : Op} (h : op ∈ b.ops) : op.nested = [] := by
  rcases List.mem_append.mp h with h | h
  · obtain ⟨n, -, rfl⟩ := List.mem_map.mp h
    unfold minOp
    split <;> rfl
  · obtain ⟨n, -, rfl⟩ := List.mem_map.mp h
    rfl

theorem nested_of_mem_lengthOps {b : CountBounds} {op : Op} (h : op ∈ b.lengthOps) :
    op.nested = [] := by
  unfold lengthOps at h
  split at h
  · split at h
    · rw [List.mem_singleton.mp h]
      rfl
    · exact nested_of_mem_ops h
  · exact nested_of_mem_ops h

end CountBounds

theorem RangeBounds.nested_of_mem_ops {b : RangeBounds} {op : Op} (h : op ∈ b.ops) :
    op.nested = [] := by
  simp only [ops, List.mem_append, List.mem_map] at h
  rcases h with ((⟨n, -, rfl⟩ | ⟨n, -, rfl⟩) | ⟨n, -, rfl⟩) | ⟨n, -, rfl⟩
  · unfold gtOp
    split <;> rfl
  · unfold gteOp
    split <;> rfl
  · unfold ltOp
    split <;> rfl
  · unfold lteOp
    split <;> rfl

namespace Member

theorem nested_stringSchema (m : Member) : m.stringSchema.nested = [] := by
  unfold stringSchema
  split
  · rfl
  split
  · rfl
  · refine nested_eq_nil rfl fun op hop => ?_
    rcases List.mem_append.mp hop with h | h
    · exact CountBounds.nested_of_mem_lengthOps h
    · obtain ⟨pattern, -, rfl⟩ := List.mem_map.mp h
      rfl

theorem nested_numberSchema (integral : Bool) (m : Member) :
    (m.numberSchema integral).nested = [] := by
  unfold numberSchema
  split
  · rfl
  · refine nested_eq_nil rfl fun op hop => ?_
    simp only [List.mem_append, List.mem_map] at hop
    rcases hop with (h | h) | ⟨n, -, rfl⟩
    · cases integral with
      | true =>
          rw [List.mem_singleton.mp h]
          rfl
      | false => exact absurd h List.not_mem_nil
    · exact RangeBounds.nested_of_mem_ops h
    · rfl

theorem nested_primitiveSchema (m : Member) (p : Primitive) :
    (m.primitiveSchema p).nested = [] := by
  cases p with
  | string => exact m.nested_stringSchema
  | number | float | double => exact m.nested_numberSchema false
  | integer | long => exact m.nested_numberSchema true
  | boolean =>
      change m.booleanSchema.nested = []
      unfold booleanSchema
      split <;> rfl
  | null | date | dateTime | binary | untyped => rfl

theorem nested_elementSchema (sc : Scope) (m : Member) : (m.elementSchema sc).nested = [] := by
  unfold elementSchema
  split
  · exact m.nested_primitiveSchema _
  · unfold Scope.reference
    split <;> rfl

theorem nested_of_mem_arrayOps {m : Member} {op : Op} (h : op ∈ m.arrayOps) : op.nested = [] := by
  unfold arrayOps at h
  split at h
  · rcases List.mem_cons.mp h with rfl | h
    · rfl
    · exact CountBounds.nested_of_mem_ops h
  · exact absurd h List.not_mem_nil

theorem nested_schema (sc : Scope) (role : Role) (m : Member) : (m.schema sc role).nested = [] := by
  have helement := m.nested_elementSchema sc
  refine nested_eq_nil (List.append_eq_nil_iff.mp helement).1 fun op hop => ?_
  simp only [schema, andThen, List.mem_append, List.mem_map] at hop
  rcases hop with h | (h | ⟨value, -, rfl⟩) | h
  · exact nested_op_eq_nil helement op h
  · exact nested_of_mem_arrayOps h
  · rfl
  · unfold optionalOps at h
    split at h
    · rw [List.mem_singleton.mp h]
      rfl
    · exact absurd h List.not_mem_nil

theorem eq_of_within_schema {sc : Scope} {role : Role} {m : Member} {t : Schema}
    (h : Within t (m.schema sc role)) : t = m.schema sc role :=
  h.eq_of_nested_eq_nil (m.nested_schema sc role)

end Member

end ServiceSchema
