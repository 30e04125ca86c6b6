import Mathlib.Data.List.TakeWhile
import ServiceSchema.Proofs.Model.Bounds
import ServiceSchema.Proofs.Schema.Chains
/-!
# Bounds on counts

Rules bound three counts: the length of a string, the number of items of an array and the number of
keys of a record.  Lengths and items share the names of their operations and are told apart by the
array operation, before which the one and after which the other stand.  However a bound is written,
as an exact length, as something that is not empty or with a number, the operations for a count
admit exactly what the last rules of its kind allow.
-/

namespace ServiceSchema

namespace Schema

/-- An operation admits a length or a number of items; most operations admit any. -/
def Op.AdmitsCount (n : Nat) : Op → Prop
  | .length exact => n = exact.toNat
  | .min least => least.toNat ≤ n
  | .max greatest => n ≤ greatest.toNat
  | .nonempty => 1 ≤ n
  | _ => True

/-- An operation admits a number of keys; most operations admit any. -/
def Op.AdmitsKeyCount (n : Nat) : Op → Prop
  | .minKeys least _ => least.toNat ≤ n
  | .maxKeys greatest _ => n ≤ greatest.toNat
  | _ => True

def Op.isArray : Op → Bool
  | .array => true
  | _ => false

/-- The operations before the array operation; all of them if there is none. -/
def opsBeforeArray (s : Schema) : List Op :=
  s.ops.takeWhile fun op => !op.isArray

/-- The operations after the array operation; none if there is none. -/
def opsAfterArray (s : Schema) : List Op :=
  (s.ops.dropWhile fun op => !op.isArray).tail

variable {n : Nat} {op : Op}

theorem Op.admitsCount_of_isClosing (h : op.isClosing = true) : op.AdmitsCount n := by
  cases op with
  | default | optional => trivial
  | _ => cases h

theorem Op.isArray_of_isClosing (h : op.isClosing = true) : (!op.isArray) = true := by
  cases op with
  | default | optional => rfl
  | _ => cases h

theorem Op.Constrains.isArray {base : Base} (h : op.Constrains base) : (!op.isArray) = true := by
  cases op with
  | array => exact h.elim
  | _ => rfl

end Schema

open Schema (Op)

/-! ## Bounds -/

namespace CountBounds

variable {b : CountBounds} {n : Nat}

theorem admitsCount_minOp_iff {least : UInt64} :
    (minOp least).AdmitsCount n ↔ least.toNat ≤ n := by
  unfold minOp
  split
  · next hone =>
      rw [hone]
      rfl
  · rfl

theorem forall_ops_admitsCount_iff : (∀ op ∈ b.ops, op.AdmitsCount n) ↔ b.Admits n := by
  unfold ops Admits
  rw [List.forall_mem_append]
  refine and_congr ?_ ?_
  · simp [admitsCount_minOp_iff]
  · simp [Op.AdmitsCount]

theorem forall_lengthOps_admitsCount_iff :
    (∀ op ∈ b.lengthOps, op.AdmitsCount n) ↔ b.Admits n := by
  unfold lengthOps
  split
  · next least greatest hmin hmax =>
      split
      · next heq =>
          rw [List.forall_mem_singleton, Admits, hmin, hmax, ← heq]
          simp only [Option.mem_def, Option.some.injEq, forall_eq', Op.AdmitsCount]
          omega
      · exact forall_ops_admitsCount_iff
  · exact forall_ops_admitsCount_iff

end CountBounds

/-! ## Members -/

namespace Member

open Rule (ofKind filterMap_eq_of_ofKind)

variable {sc : Scope} {role : Role} {m : Member} {n : Nat}

theorem isArray_of_mem_elementSchema :
    ∀ op ∈ (m.elementSchema sc).ops, (!op.isArray) = true := fun _ hop =>
  (constrains_of_mem_elementSchema hop).isArray

theorem opsBeforeArray_schema : (m.schema sc role).opsBeforeArray =
    (m.elementSchema sc).ops ++ if m.isArray then [] else m.closingOps role := by
  have hclosing : ∀ op ∈ m.closingOps role, (!op.isArray) = true := fun _ hop =>
    Op.isArray_of_isClosing (isClosing_of_mem_closingOps hop).1
  rw [Schema.opsBeforeArray, ops_schema,
    List.takeWhile_append_of_pos isArray_of_mem_elementSchema]
  unfold arrayOps
  cases m.isArray with
  | true => simp [Op.isArray]
  | false => simpa [List.takeWhile_eq_self_iff] using hclosing

theorem opsAfterArray_schema (h : m.isArray = true) :
    (m.schema sc role).opsAfterArray = (Rule.itemBounds m.rules).ops ++ m.closingOps role := by
  rw [Schema.opsAfterArray, ops_schema,
    List.dropWhile_append_of_pos isArray_of_mem_elementSchema, arrayOps, h]
  simp [Op.isArray]

theorem admitsCount_of_mem_closingOps :
    ∀ op ∈ m.closingOps role, op.AdmitsCount n := fun _ hop =>
  Op.admitsCount_of_isClosing (isClosing_of_mem_closingOps hop).1

theorem forall_stringSchema_admitsCount_iff (hconstant : m.constant = none)
    (henum : ∀ r ∈ m.rules, r.kind ≠ .enum) :
    (∀ op ∈ m.stringSchema.ops, op.AdmitsCount n) ↔ (Rule.lengthBounds m.rules).Admits n := by
  have hnone : m.rules.findSome? Rule.enum? = none := by
    rw [List.findSome?_eq_none_iff]
    intro r hr
    cases r with
    | enum values => exact absurd rfl (henum _ hr)
    | _ => rfl
  have hpattern : ∀ op ∈ (m.rules.filterMap Rule.pattern?).map Op.regex, op.AdmitsCount n := by
    intro op hop
    obtain ⟨pattern, -, rfl⟩ := List.mem_map.mp hop
    trivial
  rw [stringSchema, hconstant, hnone]
  refine List.forall_mem_append.trans ?_
  rw [and_iff_left hpattern]
  exact CountBounds.forall_lengthOps_admitsCount_iff

theorem forall_opsBeforeArray_admitsCount_iff (htype : m.type = .primitive .string)
    (hconstant : m.constant = none) (henum : ∀ r ∈ m.rules, r.kind ≠ .enum) :
    (∀ op ∈ (m.schema sc role).opsBeforeArray, op.AdmitsCount n) ↔
      (Rule.lengthBounds m.rules).Admits n := by
  have hclosing : ∀ op ∈ (if m.isArray then [] else m.closingOps role), op.AdmitsCount n := by
    cases m.isArray with
    | true => exact fun op hop => absurd hop List.not_mem_nil
    | false => exact admitsCount_of_mem_closingOps
  have helement : m.elementSchema sc = m.stringSchema := by
    rw [elementSchema, htype]
    rfl
  rw [opsBeforeArray_schema, List.forall_mem_append, and_iff_left hclosing, helement]
  exact forall_stringSchema_admitsCount_iff hconstant henum

theorem forall_opsAfterArray_admitsCount_iff (h : m.isArray = true) :
    (∀ op ∈ (m.schema sc role).opsAfterArray, op.AdmitsCount n) ↔
      (Rule.itemBounds m.rules).Admits n := by
  rw [opsAfterArray_schema h, List.forall_mem_append, and_iff_left admitsCount_of_mem_closingOps]
  exact CountBounds.forall_ops_admitsCount_iff

/-- The schema of one element depends on the rules of each kind on their own, and not on those that
are about the items of an array or the keys of a record. -/
theorem elementSchema_eq_of_ofKind {rules : List Rule}
    (h : ∀ k, k ≠ .items → k ≠ .keys → ofKind k rules = ofKind k m.rules) :
    ({ m with rules := rules } : Member).elementSchema sc = m.elementSchema sc := by
  have hlength : rules.filterMap Rule.length? = m.rules.filterMap Rule.length? :=
    filterMap_eq_of_ofKind (fun r => by cases r <;> simp [Rule.kind, Rule.length?])
      (h .length nofun nofun)
  have hpattern : rules.filterMap Rule.pattern? = m.rules.filterMap Rule.pattern? :=
    filterMap_eq_of_ofKind (fun r => by cases r <;> simp [Rule.kind, Rule.pattern?])
      (h .pattern nofun nofun)
  have henum : rules.findSome? Rule.enum? = m.rules.findSome? Rule.enum? := by
    rw [← List.head?_filterMap, ← List.head?_filterMap]
    exact congrArg List.head?
      (filterMap_eq_of_ofKind (fun r => by cases r <;> simp [Rule.kind, Rule.enum?])
        (h .enum nofun nofun))
  have hrange : rules.filterMap Rule.range? = m.rules.filterMap Rule.range? :=
    filterMap_eq_of_ofKind (fun r => by cases r <;> simp [Rule.kind, Rule.range?])
      (h .range nofun nofun)
  have hmultiple : rules.filterMap Rule.multipleOf? = m.rules.filterMap Rule.multipleOf? :=
    filterMap_eq_of_ofKind (fun r => by cases r <;> simp [Rule.kind, Rule.multipleOf?])
      (h .multipleOf nofun nofun)
  have hstring : ({ m with rules := rules } : Member).stringSchema = m.stringSchema := by
    simp only [stringSchema, Rule.lengthBounds, hlength, hpattern, henum]
  have hnumber : ∀ integral,
      ({ m with rules := rules } : Member).numberSchema integral = m.numberSchema integral := by
    intro integral
    simp only [numberSchema, Rule.rangeBounds, hrange, hmultiple, coerces]
  unfold elementSchema
  cases m.type with
  | named name => rfl
  | primitive p =>
      cases p with
      | string => exact hstring
      | number | float | double => exact hnumber false
      | integer | long => exact hnumber true
      | null | boolean | date | dateTime | binary | untyped => rfl

/-- The schema of a member depends on the rules of each kind on their own.  Rules on items concern
arrays only, and rules on keys no member. -/
theorem schema_eq_of_ofKind {rules : List Rule}
    (h : ∀ k, k ≠ .keys → (k = .items → m.isArray = true) → ofKind k rules = ofKind k m.rules) :
    ({ m with rules := rules } : Member).schema sc role = m.schema sc role := by
  have helement : ({ m with rules := rules } : Member).elementSchema sc = m.elementSchema sc :=
    elementSchema_eq_of_ofKind fun k hitems hkeys => h k hkeys fun heq => absurd heq hitems
  have hops : ({ m with rules := rules } : Member).arrayOps = m.arrayOps := by
    unfold arrayOps
    cases harray : m.isArray with
    | false => rfl
    | true =>
        have hitems : rules.filterMap Rule.items? = m.rules.filterMap Rule.items? :=
          filterMap_eq_of_ofKind (fun r => by cases r <;> simp [Rule.kind, Rule.items?])
            (h .items nofun fun _ => harray)
        simp only [Rule.itemBounds, hitems]
  unfold schema
  rw [helement, hops]
  rfl

theorem schema_eq_of_not_isArray {rules : List Rule} (harray : m.isArray = false)
    (h : ∀ k, k ≠ .items → ofKind k rules = ofKind k m.rules) :
    ({ m with rules := rules } : Member).schema sc role = m.schema sc role := by
  apply schema_eq_of_ofKind
  intro k _ hitems
  apply h
  intro heq
  rw [hitems heq] at harray
  exact Bool.false_ne_true harray.symm

end Member

/-! ## Records -/

namespace Record

variable {sc : Scope} {r : Record} {n : Nat}

theorem forall_ops_admitsKeyCount_iff :
    (∀ op ∈ (r.schema sc).ops, op.AdmitsKeyCount n) ↔ r.keyBounds.Admits n := by
  constructor
  · intro h
    constructor
    · intro least hleast
      exact h _ (mem_ops_schema_iff.mpr (Or.inr (Or.inl ⟨least, hleast, rfl⟩)))
    · intro greatest hgreatest
      exact h _ (mem_ops_schema_iff.mpr (Or.inr (Or.inr (Or.inl ⟨greatest, hgreatest, rfl⟩))))
  · rintro ⟨hmin, hmax⟩ op hop
    rcases mem_ops_schema_iff.mp hop with hcatchall | ⟨least, hleast, rfl⟩ |
      ⟨greatest, hgreatest, rfl⟩ | hcheck
    · obtain ⟨x, -, -, -, rfl⟩ := mem_catchallOps_iff.mp hcatchall
      trivial
    · exact hmin least hleast
    · exact hmax greatest hgreatest
    · obtain ⟨x, -, -, rfl⟩ := mem_keyCheckOps_iff.mp hcheck
      trivial

end Record

namespace Schema

/-- The operations before the array operation admit the lengths within the bounds that the last
rules on the length of a string set, and those after it the numbers of items within the bounds of
the last rules on items, which have no effect without it.  The refinements of a record admit the
numbers of keys within the bounds of the last rules on keys. -/
theorem counts_admitted :
    (∀ (m : Member) (sc : Scope) (role : Role) (n : Nat), m.type = .primitive .string →
      m.constant = none → (∀ r ∈ m.rules, r.kind ≠ .enum) →
      ((∀ op ∈ (m.schema sc role).opsBeforeArray, op.AdmitsCount n) ↔
        (CountBounds.ofLast Rule.length? m.rules).Admits n)) ∧
    (∀ (m : Member) (sc : Scope) (role : Role) (n : Nat), m.isArray = true →
      .array ∈ (m.schema sc role).ops ∧
      ((∀ op ∈ (m.schema sc role).opsAfterArray, op.AdmitsCount n) ↔
        (CountBounds.ofLast Rule.items? m.rules).Admits n)) ∧
    (∀ (m : Member) (sc : Scope) (role : Role) (rules : List Rule), m.isArray = false →
      (∀ k, k ≠ .items → Rule.ofKind k rules = Rule.ofKind k m.rules) →
      ({ m with rules := rules } : Member).schema sc role = m.schema sc role) ∧
    ∀ (e : Entity) (r : Record) (c : List String) (n : Nat), e.kind = .record r →
      ((∀ op ∈ (e.schema c).ops, op.AdmitsKeyCount n) ↔
        (CountBounds.ofLast Rule.keys? r.rules).Admits n) := by
  refine ⟨?_, ?_, fun _ _ _ _ => Member.schema_eq_of_not_isArray, ?_⟩
  · intro m sc role n htype hconstant henum
    rw [← Rule.lengthBounds_eq]
    exact Member.forall_opsBeforeArray_admitsCount_iff htype hconstant henum
  · intro m sc role n harray
    rw [← Rule.itemBounds_eq]
    exact ⟨Member.array_mem_schema_iff.mpr harray,
      Member.forall_opsAfterArray_admitsCount_iff harray⟩
  · rintro ⟨name, kind⟩ r c n rfl
    rw [← Rule.keyBounds_eq]
    exact Record.forall_ops_admitsKeyCount_iff

/-- Codes of three letters, at least one of them and at most nine, in a record with two keys or
more. -/
theorem counts_admitted_of_string_array :
    let codes : Member := { Member.optional "codes" (.primitive .string) with
      isArray := true,
      rules := [.items ⟨some 4, some 9⟩, .length ⟨some 3, some 8⟩, .pattern "^[A-Z]*$",
        .items ⟨some 1, none⟩, .length ⟨none, some 3⟩] }
    let owner : Member := { Member.required "owner" (.primitive .string) with
      rules := [.items ⟨some 2, none⟩, .length ⟨some 1, none⟩] }
    let r : Record := ⟨[codes, owner], none, [.keys ⟨some 7, none⟩, .keys ⟨some 2, none⟩]⟩
    (∀ op ∈ (codes.schema ⟨"Book", []⟩ .field).opsBeforeArray, op.AdmitsCount 3) ∧
    (¬ ∀ op ∈ (codes.schema ⟨"Book", []⟩ .field).opsBeforeArray, op.AdmitsCount 8) ∧
    (∀ op ∈ (codes.schema ⟨"Book", []⟩ .field).opsAfterArray, op.AdmitsCount 9) ∧
    (¬ ∀ op ∈ (codes.schema ⟨"Book", []⟩ .field).opsAfterArray, op.AdmitsCount 0) ∧
    ({ owner with rules := [.length ⟨some 1, none⟩] } : Member).schema ⟨"Book", []⟩ .field =
      owner.schema ⟨"Book", []⟩ .field ∧
    ∀ op ∈ ((Entity.map "Book" r).schema []).ops, op.AdmitsKeyCount 2 := by
  intro codes owner r
  obtain ⟨hlength, hitems, hignored, hkeys⟩ := counts_admitted
  have hletters := fun n => hlength codes ⟨"Book", []⟩ .field n rfl rfl (by decide)
  have hcodes := fun n => (hitems codes ⟨"Book", []⟩ .field n rfl).2
  refine ⟨(hletters 3).mpr (by decide), mt (hletters 8).mp (by decide), (hcodes 9).mpr (by decide),
    mt (hcodes 0).mp (by decide), hignored owner _ .field _ rfl ?_, ?_⟩
  · intro k hk
    cases k with
    | items => exact absurd rfl hk
    | _ => rfl
  · exact (hkeys _ r [] 2 rfl).mpr (by decide)

end Schema

end ServiceSchema
