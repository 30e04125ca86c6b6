import ServiceSchema.Proofs.Schema.References
/-!
# Lazy references

Making the lazy references of a schema eager leaves everything else as it is.  The circular group
decides only which references are lazy: the schemas that an entity has under two groups have one
eager form, and where the groups agree on the dependencies of the entity they are equal.  The search
for a lazy reference finds one exactly if there is one at some depth.
-/

namespace ServiceSchema

namespace Schema

mutual

/-- The schema with eager references in place of the lazy ones, at any depth. -/
def eager : Schema → Schema
  | ⟨base, ops⟩ => ⟨base.eager, Op.eagerAll ops⟩

def Base.eager : Base → Base
  | .lazy name => .ref name
  | .object fields => .object (Field.eagerAll fields)
  | .record value => .record value.eager
  | .union variants => .union (eagerAll variants)
  | .discriminatedUnion discriminator variants =>
    .discriminatedUnion discriminator (eagerAll variants)
  | base => base

def Op.eager : Op → Op
  | .catchall value => .catchall value.eager
  | .keyCheck key known => .keyCheck key.eager known
  | op => op

def Field.eager : Field → Field
  | ⟨name, schema⟩ => ⟨name, schema.eager⟩

def eagerAll : List Schema → List Schema
  | [] => []
  | s :: ss => s.eager :: eagerAll ss

def Field.eagerAll : List Field → List Field
  | [] => []
  | f :: fs => f.eager :: Field.eagerAll fs

def Op.eagerAll : List Op → List Op
  | [] => []
  | op :: ops => op.eager :: Op.eagerAll ops

end

theorem eagerAll_eq (ss : List Schema) : eagerAll ss = ss.map eager := by
  induction ss with
  | nil => rfl
  | cons s ss ih => rw [eagerAll, ih, List.map_cons]

theorem Field.eagerAll_eq (fs : List Field) : Field.eagerAll fs = fs.map Field.eager := by
  induction fs with
  | nil => rfl
  | cons f fs ih => rw [Field.eagerAll, ih, List.map_cons]

theorem Op.eagerAll_eq (ops : List Op) : Op.eagerAll ops = ops.map Op.eager := by
  induction ops with
  | nil => rfl
  | cons op ops ih => rw [Op.eagerAll, ih, List.map_cons]

theorem eager_mk (b : Base) (ops : List Op) : eager ⟨b, ops⟩ = ⟨b.eager, ops.map Op.eager⟩ := by
  rw [eager, Op.eagerAll_eq]

theorem eager_andThen (s : Schema) (ops : List Op) :
    (s.andThen ops).eager = s.eager.andThen (ops.map Op.eager) := by
  obtain ⟨base, before⟩ := s
  simp only [andThen, eager_mk, List.map_append]

/-! ## The search for lazy references -/

theorem anyLazy_eq (ss : List Schema) : anyLazy ss = ss.any containsLazy := by
  induction ss with
  | nil => rfl
  | cons s ss ih => rw [anyLazy, ih, List.any_cons]

theorem Field.anyLazy_eq (fs : List Field) :
    Field.anyLazy fs = (fs.map Field.schema).any Schema.containsLazy := by
  induction fs with
  | nil => rfl
  | cons f fs ih =>
      obtain ⟨name, schema⟩ := f
      rw [Field.anyLazy, ih, Field.containsLazy, List.map_cons, List.any_cons]

theorem Op.containsLazy_eq (op : Op) : op.containsLazy = op.nested.any Schema.containsLazy := by
  cases op with
  | catchall value => simp [Op.containsLazy, Op.nested]
  | keyCheck key known => simp [Op.containsLazy, Op.nested]
  | _ => rfl

theorem Op.anyLazy_eq (ops : List Op) :
    Op.anyLazy ops = (ops.flatMap Op.nested).any Schema.containsLazy := by
  induction ops with
  | nil => rfl
  | cons op ops ih => rw [Op.anyLazy, ih, Op.containsLazy_eq, List.flatMap_cons, List.any_append]

theorem Base.containsLazy_iff {b : Base} :
    b.containsLazy = true ↔ (∃ n, b = .lazy n) ∨ ∃ t ∈ b.nested, t.containsLazy = true := by
  cases b with
  | lazy n => simp [Base.containsLazy]
  | object fields => simp [Base.containsLazy, Base.nested, Field.anyLazy_eq]
  | record value => simp [Base.containsLazy, Base.nested]
  | union variants => simp [Base.containsLazy, Base.nested, Schema.anyLazy_eq]
  | discriminatedUnion discriminator variants =>
      simp [Base.containsLazy, Base.nested, Schema.anyLazy_eq]
  | _ => simp [Base.containsLazy, Base.nested]

theorem containsLazy_iff_nested {s : Schema} :
    s.containsLazy = true ↔ (∃ n, s.base = .lazy n) ∨ ∃ t ∈ s.nested, t.containsLazy = true := by
  obtain ⟨base, ops⟩ := s
  rw [containsLazy, Bool.or_eq_true, Op.anyLazy_eq, List.any_eq_true, Base.containsLazy_iff]
  simp only [nested, List.mem_append, or_and_right, exists_or, or_assoc]

theorem refersLazilyTo_iff_nested {s : Schema} {n : String} :
    s.RefersLazilyTo n ↔ s.base = .lazy n ∨ ∃ t ∈ s.nested, t.RefersLazilyTo n := by
  constructor
  · rintro ⟨t, hwithin, hbase⟩
    cases hwithin with
    | self => exact Or.inl hbase
    | nested hu hwithin => exact Or.inr ⟨_, hu, t, hwithin, hbase⟩
  · rintro (hbase | ⟨u, hu, t, hwithin, hbase⟩)
    · exact ⟨s, .self s, hbase⟩
    · exact ⟨t, .nested hu hwithin, hbase⟩

/-- The search finds the lazy references at every depth, and nothing else. -/
theorem containsLazy_iff {s : Schema} : s.containsLazy = true ↔ ∃ n, s.RefersLazilyTo n := by
  induction s using induction_nested with
  | step s ih =>
      have hnested : (∃ t ∈ s.nested, t.containsLazy = true) ↔
          ∃ n, ∃ t ∈ s.nested, t.RefersLazilyTo n := by
        constructor
        · rintro ⟨t, ht, hlazy⟩
          obtain ⟨n, hn⟩ := (ih t ht).mp hlazy
          exact ⟨n, t, ht, hn⟩
        · rintro ⟨n, t, ht, hn⟩
          exact ⟨t, ht, (ih t ht).mpr ⟨n, hn⟩⟩
      rw [containsLazy_iff_nested, hnested, ← exists_or]
      exact exists_congr fun n => refersLazilyTo_iff_nested.symm

end Schema

open Schema

/-! ## The eager form of the schema of an entity -/

theorem Scope.eager_reference (sc : Scope) (n : String) :
    (sc.reference n).eager = Schema.ref n := by
  unfold Scope.reference
  split <;> rfl

namespace Member

/-- The scope of a member only shows in the kind of its reference. -/
theorem eager_schema_eq (sc sc' : Scope) (role : Role) (m : Member) :
    (m.schema sc role).eager = (m.schema sc' role).eager := by
  have helement : (m.elementSchema sc).eager = (m.elementSchema sc').eager := by
    unfold elementSchema
    split
    · rfl
    · rw [Scope.eager_reference, Scope.eager_reference]
  rw [schema, schema, eager_andThen, eager_andThen, helement]

end Member

namespace Record

variable (sc sc' : Scope) (r : Record)

theorem map_eager_fields : (r.fields sc).map Field.eager = (r.fields sc').map Field.eager := by
  have hmember := Member.eager_schema_eq sc sc'
  unfold fields declaredFields addedFields
  cases r.map with
  | none => simp [Function.comp_def, Field.eager, hmember]
  | some x => simp [Function.comp_def, Field.eager, hmember]

theorem eager_base : (r.base sc).eager = (r.base sc').eager := by
  unfold base
  split
  · unfold valueSchema
    cases r.map with
    | none => rfl
    | some x => rw [Base.eager, Base.eager, Member.eager_schema_eq sc sc']
  · rw [Base.eager, Base.eager, Field.eagerAll_eq, Field.eagerAll_eq, map_eager_fields sc sc']

theorem map_eager_catchallOps :
    (r.catchallOps sc).map Op.eager = (r.catchallOps sc').map Op.eager := by
  unfold catchallOps
  split
  · split
    · simp [Op.eager, Member.eager_schema_eq sc sc']
    · rfl
  · rfl

theorem map_eager_keyCheckOps :
    (r.keyCheckOps sc).map Op.eager = (r.keyCheckOps sc').map Op.eager := by
  unfold keyCheckOps
  split
  · split
    · simp [Op.eager, Member.eager_schema_eq sc sc']
    · rfl
  · rfl

end Record

namespace Entity

variable {name : String} {c d : List String}

theorem eager_record_schema (r : Record) :
    (r.schema ⟨name, c⟩).eager = (r.schema ⟨name, d⟩).eager := by
  have hbase := Record.eager_base ⟨name, c⟩ ⟨name, d⟩ r
  have hcatchall := Record.map_eager_catchallOps ⟨name, c⟩ ⟨name, d⟩ r
  have hcheck := Record.map_eager_keyCheckOps ⟨name, c⟩ ⟨name, d⟩ r
  simp only [Record.schema, eager_mk, List.map_append, hbase, hcatchall, hcheck]

theorem eager_parameterBag_schema (b : ParameterBag) :
    (b.schema ⟨name, c⟩).eager = (b.schema ⟨name, d⟩).eager := by
  have hmember := Member.eager_schema_eq ⟨name, c⟩ ⟨name, d⟩
  simp [ParameterBag.schema, ofBase, eager_mk, Base.eager, Field.eagerAll_eq, Function.comp_def,
    Field.eager, hmember]

theorem eager_union_schema (u : Union) :
    (u.schema ⟨name, c⟩).eager = (u.schema ⟨name, d⟩).eager := by
  have hmember := Member.eager_schema_eq ⟨name, c⟩ ⟨name, d⟩
  have hvariants : eagerAll (u.variants.map (·.schema ⟨name, c⟩ .variant)) =
      eagerAll (u.variants.map (·.schema ⟨name, d⟩ .variant)) := by
    simp [eagerAll_eq, Function.comp_def, hmember]
  unfold Union.schema
  split
  · exact hmember _ _
  · rfl
  · rfl
  · cases u.discriminator with
    | none => simp only [ofBase, eager_mk, Base.eager, hvariants]
    | some discriminator => simp only [ofBase, eager_mk, Base.eager, hvariants]

/-- The circular group decides which references of an entity are lazy and nothing else: the schemas
under two groups have one eager form.  They are equal where the groups agree on the dependencies of
the entity. -/
theorem eager_schema_congr (e : Entity) (c d : List String) :
    (e.schema c).eager = (e.schema d).eager ∧
      ((∀ n ∈ e.dependencies, n ∈ c ↔ n ∈ d) → e.schema c = e.schema d) := by
  refine ⟨?_, schema_congr⟩
  obtain ⟨name, kind⟩ := e
  cases kind with
  | record r => exact eager_record_schema r
  | parameterBag b => exact eager_parameterBag_schema b
  | union u => exact eager_union_schema u
  | enum values => rfl

/-- Two groups that differ only in names which the record does not depend on, its own among them,
and two that differ in the key of its map. -/
theorem eager_schema_congr_of_foreign_names :
    let map : MapExtension := ⟨.required "" (.named "Tag"), .required "" (.named "Pet"), ["owner"]⟩
    let r : Record := ⟨[.required "next" (.named "Home"), .required "owner" (.named "User")],
      some map, [.keys ⟨some 1, none⟩]⟩
    let e : Entity := .map "Home" r
    e.schema ["Pet", "Home", "Ghost"] = e.schema ["Pet"] ∧
      (e.schema ["Tag"]).eager = (e.schema []).eager ∧ e.schema ["Tag"] ≠ e.schema [] := by
  intro map r e
  have hagree : ∀ n ∈ e.dependencies, n ∈ ["Pet", "Home", "Ghost"] ↔ n ∈ ["Pet"] := by decide
  refine ⟨(eager_schema_congr e _ _).2 hagree, (eager_schema_congr e _ _).1, fun h => ?_⟩
  exact absurd (congrArg (fun s => s.nested.map containsLazy) h) (by decide)

end Entity

end ServiceSchema
