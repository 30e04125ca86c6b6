import ServiceSchema.Proofs.Json.Compact
import ServiceSchema.Proofs.Schema.Nesting
import ServiceSchema.Schema.Written
/-!
# The written form of a schema determines the schema

Every base is written with its kind first and every operation with its name first, so two written
forms that are alike come from the same base or operation, up to what it holds.  A schema without
operations is the only one that is written without a list of them.
-/

/-! ## Schemas up to the spelling of numbers -/

namespace ServiceSchema.Schema

open Json (Number)

mutual

inductive Alike : Schema → Schema → Prop where
  | mk {s t : Schema} : s.base.Alike t.base → List.Forall₂ Op.Alike s.ops t.ops → Alike s t

inductive Base.Alike : Base → Base → Prop where
  | refl (b : Base) : Base.Alike b b
  | literal {v w : Json} : v.Alike w → Base.Alike (.literal v) (.literal w)
  | object {fs gs : List Field} :
    List.Forall₂ Field.Alike fs gs → Base.Alike (.object fs) (.object gs)
  | record {v w : Schema} : v.Alike w → Base.Alike (.record v) (.record w)
  | union {ss ts : List Schema} :
    List.Forall₂ Schema.Alike ss ts → Base.Alike (.union ss) (.union ts)
  | discriminatedUnion (discriminator : String) {ss ts : List Schema} :
    List.Forall₂ Schema.Alike ss ts →
      Base.Alike (.discriminatedUnion discriminator ss) (.discriminatedUnion discriminator ts)

inductive Field.Alike : Field → Field → Prop where
  | mk {f g : Field} : f.name = g.name → f.schema.Alike g.schema → Field.Alike f g

inductive Op.Alike : Op → Op → Prop where
  | refl (op : Op) : Op.Alike op op
  | gt {m n : Number} : m.text = n.text → Op.Alike (.gt m) (.gt n)
  | gte {m n : Number} : m.text = n.text → Op.Alike (.gte m) (.gte n)
  | lt {m n : Number} : m.text = n.text → Op.Alike (.lt m) (.lt n)
  | lte {m n : Number} : m.text = n.text → Op.Alike (.lte m) (.lte n)
  | multipleOf {m n : Number} : m.text = n.text → Op.Alike (.multipleOf m) (.multipleOf n)
  | default {v w : Json} : v.Alike w → Op.Alike (.default v) (.default w)
  | catchall {v w : Schema} : v.Alike w → Op.Alike (.catchall v) (.catchall w)
  | keyCheck {v w : Schema} (known : List String) :
    v.Alike w → Op.Alike (.keyCheck v known) (.keyCheck w known)

end

/-! ## Operations and bases of one kind -/

/-- The same operation, whatever it holds. -/
inductive Op.SameKind : Op → Op → Prop where
  | int : SameKind .int .int
  | min (m n : UInt64) : SameKind (.min m) (.min n)
  | max (m n : UInt64) : SameKind (.max m) (.max n)
  | length (m n : UInt64) : SameKind (.length m) (.length n)
  | nonempty : SameKind .nonempty .nonempty
  | regex (p q : String) : SameKind (.regex p) (.regex q)
  | gt (m n : Number) : SameKind (.gt m) (.gt n)
  | gte (m n : Number) : SameKind (.gte m) (.gte n)
  | lt (m n : Number) : SameKind (.lt m) (.lt n)
  | lte (m n : Number) : SameKind (.lte m) (.lte n)
  | positive : SameKind .positive .positive
  | nonnegative : SameKind .nonnegative .nonnegative
  | negative : SameKind .negative .negative
  | nonpositive : SameKind .nonpositive .nonpositive
  | multipleOf (m n : Number) : SameKind (.multipleOf m) (.multipleOf n)
  | default (v w : Json) : SameKind (.default v) (.default w)
  | array : SameKind .array .array
  | optional : SameKind .optional .optional
  | catchall (v w : Schema) : SameKind (.catchall v) (.catchall w)
  | minKeys (m n : UInt64) (s t : String) : SameKind (.minKeys m s) (.minKeys n t)
  | maxKeys (m n : UInt64) (s t : String) : SameKind (.maxKeys m s) (.maxKeys n t)
  | keyCheck (v w : Schema) (ks ls : List String) : SameKind (.keyCheck v ks) (.keyCheck w ls)

inductive Base.SameKind : Base → Base → Prop where
  | string : SameKind .string .string
  | number (c d : Bool) : SameKind (.number c) (.number d)
  | boolean (c d : Bool) : SameKind (.boolean c) (.boolean d)
  | date (c d : Bool) : SameKind (.date c) (.date d)
  | any : SameKind .any .any
  | null : SameKind .null .null
  | literal (v w : Json) : SameKind (.literal v) (.literal w)
  | enum (ss ts : List String) : SameKind (.enum ss) (.enum ts)
  | ref (m n : String) : SameKind (.ref m) (.ref n)
  | lazy (m n : String) : SameKind (.lazy m) (.lazy n)
  | object (fs gs : List Field) : SameKind (.object fs) (.object gs)
  | record (v w : Schema) : SameKind (.record v) (.record w)
  | union (ss ts : List Schema) : SameKind (.union ss) (.union ts)
  | discriminatedUnion (m n : String) (ss ts : List Schema) :
    SameKind (.discriminatedUnion m ss) (.discriminatedUnion n ts)
  | unsupported (s t : String) : SameKind (.unsupported s) (.unsupported t)

end ServiceSchema.Schema

/-! ## Written values -/

namespace ServiceSchema

namespace Json

@[simp] theorem alike_strings_iff {ss ts : List String} :
    (strings ss).Alike (strings ts) ↔ ss = ts := by
  simp [strings, List.forall₂_map_left_iff, List.forall₂_map_right_iff]

@[simp] theorem alike_natural_iff {m n : UInt64} : (natural m).Alike (natural n) ↔ m = n := by
  have hnonneg : ∀ k : UInt64, ¬ (k.toNat : Int) < 0 := fun k => by omega
  simp only [natural, Number.ofNat, alike_number_iff, Number.text, hnonneg, if_false,
    List.nil_append, Int.natAbs_natCast, natText_injective.eq_iff, UInt64.toNat_inj]

end Json

namespace Schema

/-- The written form of a schema determines it. -/
def WrittenOnce (s : Schema) : Prop := ∀ t : Schema, s.toJson.Alike t.toJson → s.Alike t

/-! ## Operations -/

def Op.tag : Op → String
  | .int => "int"
  | .min _ => "min"
  | .max _ => "max"
  | .length _ => "length"
  | .nonempty => "nonempty"
  | .regex _ => "regex"
  | .gt _ => "gt"
  | .gte _ => "gte"
  | .lt _ => "lt"
  | .lte _ => "lte"
  | .positive => "positive"
  | .nonnegative => "nonnegative"
  | .negative => "negative"
  | .nonpositive => "nonpositive"
  | .multipleOf _ => "multiple-of"
  | .default _ => "default"
  | .array => "array"
  | .optional => "optional"
  | .catchall _ => "catchall"
  | .minKeys _ _ => "min-keys"
  | .maxKeys _ _ => "max-keys"
  | .keyCheck _ _ => "key-check"

theorem Op.sameKind_of_tag_eq {op op' : Op} (h : op.tag = op'.tag) : op.SameKind op' := by
  cases op <;> cases op' <;> first | constructor | simp [tag] at h

theorem Op.exists_toJson (op : Op) : ∃ es, op.toJson = .object (("op", .string op.tag) :: es) := by
  cases op <;> exact ⟨_, rfl⟩

theorem Op.tag_eq_of_alike {op op' : Op} (h : op.toJson.Alike op'.toJson) : op.tag = op'.tag := by
  obtain ⟨es, hes⟩ := op.exists_toJson
  obtain ⟨fs, hfs⟩ := op'.exists_toJson
  rw [hes, hfs, Json.alike_object_iff, List.forall₂_cons] at h
  simpa using h.1

theorem alike_operation_iff {name : String} {v w : Json} :
    (operation name v).Alike (operation name w) ↔ v.Alike w := by
  simp [operation]

theorem alike_keyCountArg_iff {m n : UInt64} {message message' : String} :
    (keyCountArg m message).Alike (keyCountArg n message') ↔ m = n ∧ message = message' := by
  simp [keyCountArg]

theorem Op.alike_of_toJson {op op' : Op} (hnested : ∀ s ∈ op.nested, s.WrittenOnce)
    (h : op.toJson.Alike op'.toJson) : op.Alike op' := by
  cases Op.sameKind_of_tag_eq (Op.tag_eq_of_alike h) with
  | int | nonempty | positive | nonnegative | negative | nonpositive | array | optional =>
      exact .refl _
  | min | max | length =>
      obtain rfl := Json.alike_natural_iff.mp (alike_operation_iff.mp h)
      exact .refl _
  | regex =>
      obtain rfl := Json.alike_string_iff.mp (alike_operation_iff.mp h)
      exact .refl _
  | gt => exact .gt (Json.alike_number_iff.mp (alike_operation_iff.mp h))
  | gte => exact .gte (Json.alike_number_iff.mp (alike_operation_iff.mp h))
  | lt => exact .lt (Json.alike_number_iff.mp (alike_operation_iff.mp h))
  | lte => exact .lte (Json.alike_number_iff.mp (alike_operation_iff.mp h))
  | multipleOf => exact .multipleOf (Json.alike_number_iff.mp (alike_operation_iff.mp h))
  | default => exact .default (alike_operation_iff.mp h)
  | catchall v => exact .catchall (hnested v List.mem_cons_self _ (alike_operation_iff.mp h))
  | minKeys | maxKeys =>
      obtain ⟨rfl, rfl⟩ := alike_keyCountArg_iff.mp (alike_operation_iff.mp h)
      exact .refl _
  | keyCheck key _ known =>
      have harg := alike_operation_iff.mp h
      simp only [Json.alike_object_iff, List.forall₂_cons, Json.alikeEntry_iff,
        Json.alike_strings_iff, true_and, List.forall₂_nil_left_iff, and_true] at harg
      obtain ⟨hkey, rfl⟩ := harg
      exact .keyCheck known (hnested key List.mem_cons_self _ hkey)

/-! ## Bases -/

def Base.tag : Base → String
  | .string => "string"
  | .number _ => "number"
  | .boolean _ => "boolean"
  | .date _ => "date"
  | .any => "any"
  | .null => "null"
  | .literal _ => "literal"
  | .enum _ => "enum"
  | .ref _ => "ref"
  | .lazy _ => "lazy"
  | .object _ => "object"
  | .record _ => "record"
  | .union _ => "union"
  | .discriminatedUnion _ _ => "discriminated-union"
  | .unsupported _ => "unsupported"

theorem Base.sameKind_of_tag_eq {b b' : Base} (h : b.tag = b'.tag) : b.SameKind b' := by
  cases b <;> cases b' <;> first | constructor | simp [tag] at h

theorem Base.exists_toJson (b : Base) : ∃ es, b.toJson = tagged b.tag es := by
  cases b <;> exact ⟨_, rfl⟩

theorem alike_tagged_iff {kind kind' : String} {es fs : List (String × Json)} :
    (tagged kind es).Alike (tagged kind' fs) ↔
      kind = kind' ∧ List.Forall₂ Json.AlikeEntry es fs := by
  simp [tagged]

theorem Base.tag_eq_of_alike {b b' : Base} (h : b.toJson.Alike b'.toJson) : b.tag = b'.tag := by
  obtain ⟨es, hes⟩ := b.exists_toJson
  obtain ⟨fs, hfs⟩ := b'.exists_toJson
  rw [hes, hfs] at h
  exact (alike_tagged_iff.mp h).1

theorem alike_tagged_singleton_iff {kind key : String} {v w : Json} :
    (tagged kind [(key, v)]).Alike (tagged kind [(key, w)]) ↔ v.Alike w := by
  simp [alike_tagged_iff]

theorem listToJson_eq (ss : List Schema) : listToJson ss = ss.map toJson := by
  induction ss with
  | nil => rfl
  | cons s ss ih => rw [listToJson, ih, List.map_cons]

theorem Field.listToJson_eq (fs : List Field) : Field.listToJson fs = fs.map Field.toJson := by
  induction fs with
  | nil => rfl
  | cons f fs ih => rw [Field.listToJson, ih, List.map_cons]

theorem Op.listToJson_eq (ops : List Op) : Op.listToJson ops = ops.map Op.toJson := by
  induction ops with
  | nil => rfl
  | cons op ops ih => rw [Op.listToJson, ih, List.map_cons]

theorem Field.alike_of_toJson {f g : Field} (hf : f.schema.WrittenOnce)
    (h : f.toJson.Alike g.toJson) : f.Alike g := by
  obtain ⟨name, schema⟩ := f
  obtain ⟨name', schema'⟩ := g
  simp only [Field.toJson, Json.alike_object_iff, List.forall₂_cons, Json.alikeEntry_iff,
    Json.alike_string_iff, true_and, List.forall₂_nil_left_iff, and_true] at h
  exact .mk h.1 (hf _ h.2)

/-- Lists that are written alike have items in a relation when items that are written alike are. -/
theorem forall₂_of_alike_map {α : Type} {write : α → Json} {R : α → α → Prop} {as bs : List α}
    (hitem : ∀ a ∈ as, ∀ b, (write a).Alike (write b) → R a b)
    (h : (Json.array (as.map write)).Alike (.array (bs.map write))) : List.Forall₂ R as bs := by
  rw [Json.alike_array_iff, List.forall₂_map_left_iff, List.forall₂_map_right_iff] at h
  induction h with
  | nil => exact .nil
  | cons hab _ ih =>
      exact .cons (hitem _ List.mem_cons_self _ hab)
        (ih fun a ha => hitem a (List.mem_cons_of_mem _ ha))

theorem Base.alike_of_toJson {b b' : Base} (hnested : ∀ s ∈ b.nested, s.WrittenOnce)
    (h : b.toJson.Alike b'.toJson) : b.Alike b' := by
  cases Base.sameKind_of_tag_eq (Base.tag_eq_of_alike h) with
  | string | any | null => exact .refl _
  | number | boolean | date =>
      obtain rfl := Json.alike_bool_iff.mp (alike_tagged_singleton_iff.mp h)
      exact .refl _
  | literal => exact .literal (alike_tagged_singleton_iff.mp h)
  | enum =>
      obtain rfl := Json.alike_strings_iff.mp (alike_tagged_singleton_iff.mp h)
      exact .refl _
  | ref | lazy | unsupported =>
      obtain rfl := Json.alike_string_iff.mp (alike_tagged_singleton_iff.mp h)
      exact .refl _
  | object =>
      have hfields := alike_tagged_singleton_iff.mp h
      rw [Field.listToJson_eq, Field.listToJson_eq] at hfields
      exact .object (forall₂_of_alike_map
        (fun f hf _ => Field.alike_of_toJson (hnested f.schema (List.mem_map_of_mem hf))) hfields)
  | record v =>
      exact .record (hnested v List.mem_cons_self _ (alike_tagged_singleton_iff.mp h))
  | union =>
      have hvariants := alike_tagged_singleton_iff.mp h
      rw [listToJson_eq, listToJson_eq] at hvariants
      exact .union (forall₂_of_alike_map hnested hvariants)
  | discriminatedUnion discriminator =>
      have hfields := (alike_tagged_iff.mp h).2
      rw [listToJson_eq, listToJson_eq] at hfields
      simp only [List.forall₂_cons, Json.alikeEntry_iff, Json.alike_string_iff, true_and,
        List.forall₂_nil_left_iff, and_true] at hfields
      obtain ⟨rfl, hvariants⟩ := hfields
      exact .discriminatedUnion discriminator (forall₂_of_alike_map hnested hvariants)

/-! ## Schemas -/

def opsEntry (ops : List Op) : List (String × Json) :=
  if ops.isEmpty then [] else [("ops", .array (ops.map Op.toJson))]

theorem toJson_eq (s : Schema) :
    s.toJson = .object (("base", s.base.toJson) :: opsEntry s.ops) := by
  obtain ⟨base, ops⟩ := s
  cases ops with
  | nil => rfl
  | cons op ops => rw [toJson, Op.listToJson_eq]; rfl

theorem forall₂_of_opsEntry {ops ops' : List Op}
    (hop : ∀ op ∈ ops, ∀ op', op.toJson.Alike op'.toJson → op.Alike op')
    (h : List.Forall₂ Json.AlikeEntry (opsEntry ops) (opsEntry ops')) :
    List.Forall₂ Op.Alike ops ops' := by
  cases ops with
  | nil =>
      cases ops' with
      | nil => exact .nil
      | cons op' ops' => cases h
  | cons op ops =>
      cases ops' with
      | nil => cases h
      | cons op' ops' =>
          simp only [opsEntry, List.isEmpty_cons, Bool.false_eq_true, if_false, List.forall₂_cons,
            Json.alikeEntry_iff, true_and] at h
          exact forall₂_of_alike_map hop h.1

/-- What a schema is written as determines it, up to the spelling of numbers. -/
theorem alike_of_toJson (s : Schema) : s.WrittenOnce := by
  induction s using induction_nested with
  | step s ih =>
      intro t h
      rw [toJson_eq, toJson_eq, Json.alike_object_iff, List.forall₂_cons, Json.alikeEntry_iff] at h
      obtain ⟨⟨-, hbase⟩, hops⟩ := h
      refine .mk (Base.alike_of_toJson (fun u hu => ih u (List.mem_append_left _ hu)) hbase) ?_
      refine forall₂_of_opsEntry (fun op hop op' => Op.alike_of_toJson fun u hu => ?_) hops
      exact ih u (List.mem_append_right _ (List.mem_flatMap.mpr ⟨op, hop, hu⟩))

end Schema

end ServiceSchema
