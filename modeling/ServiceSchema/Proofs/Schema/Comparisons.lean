import Mathlib.Algebra.Order.Field.Rat
import Mathlib.Data.Int.Cast.Lemmas
import Mathlib.Tactic.NormNum
import ServiceSchema.Proofs.Model.Bounds
import ServiceSchema.Proofs.Schema.Chains
/-!
# Bounds on numbers

A number is bounded by four comparisons.  Each is decided by the last range rule that sets it and
becomes one operation, with a name of its own when the bound is zero, in whatever spelling.  Bounds
are compared by the numbers that they stand for, integers and finite floating-point numbers alike,
so the operations of a numeric member admit exactly the numbers within its bounds.
-/

namespace ServiceSchema

open Schema (Op)
open Json (Number)

/-! ## The numbers that are written -/

namespace Decimal.Binary64

def value (x : Binary64) : ℚ :=
  (if x.negative then -1 else 1) * (x.units / unitsPerOne)

theorem unitsOfRank_eq_zero_iff {r : Nat} : unitsOfRank r = 0 ↔ r = 0 := by
  unfold unitsOfRank
  split
  · rfl
  · next hlarge =>
      have hbinade : 0 < binade := Nat.two_pow_pos 52
      have hpos : 0 < (binade + r % binade) * Nat.pow 2 (r / binade - 1) :=
        Nat.mul_pos (Nat.add_pos_left hbinade _) (Nat.two_pow_pos _)
      omega

theorem unitsPerOne_ne_zero : unitsPerOne ≠ 0 := by
  unfold unitsPerOne
  apply Nat.ne_of_gt
  apply Nat.pow_pos
  exact Nat.two_pos

theorem value_eq_zero_iff {x : Binary64} : x.value = 0 ↔ x.isZero = true := by
  have hsign : (if x.negative then -1 else 1 : ℚ) ≠ 0 := by
    split <;> norm_num
  have hone : (unitsPerOne : ℚ) ≠ 0 := Nat.cast_ne_zero.mpr unitsPerOne_ne_zero
  rw [value, mul_eq_zero, or_iff_right hsign, div_eq_zero_iff, or_iff_left hone, Nat.cast_eq_zero,
    units, unitsOfRank_eq_zero_iff, isZero, beq_iff_eq]

end Decimal.Binary64

namespace Json.Number

def value : Number → ℚ
  | integer i _ => i
  | float x => x.value

theorem value_eq_zero_iff {n : Number} : n.value = 0 ↔ n.isZero = true := by
  cases n with
  | integer i inRange => rw [value, Int.cast_eq_zero, isZero, beq_iff_eq]
  | float x => exact Decimal.Binary64.value_eq_zero_iff

end Json.Number

/-! ## Comparisons -/

/-- The ways in which a number is bounded. -/
inductive Comparison where
  | gt
  | gte
  | lt
  | lte
deriving DecidableEq, Repr

namespace Comparison

def all : List Comparison :=
  [gt, gte, lt, lte]

def Holds : Comparison → (x bound : ℚ) → Prop
  | gt, x, bound => bound < x
  | gte, x, bound => bound ≤ x
  | lt, x, bound => x < bound
  | lte, x, bound => x ≤ bound

def bound : Comparison → RangeBounds → Option Number
  | gt => RangeBounds.gt
  | gte => RangeBounds.gte
  | lt => RangeBounds.lt
  | lte => RangeBounds.lte

def opWith : Comparison → Number → Op
  | gt => .gt
  | gte => .gte
  | lt => .lt
  | lte => .lte

def opWithZero : Comparison → Op
  | gt => .positive
  | gte => .nonnegative
  | lt => .negative
  | lte => .nonpositive

def op (cmp : Comparison) (n : Number) : Op :=
  if n.value = 0 then cmp.opWithZero else cmp.opWith n

end Comparison

namespace Schema

def Op.comparison? : Op → Option Comparison
  | .gt _ | .positive => some .gt
  | .gte _ | .nonnegative => some .gte
  | .lt _ | .negative => some .lt
  | .lte _ | .nonpositive => some .lte
  | _ => none

/-- An operation admits a number; those that do not compare admit any. -/
def Op.AdmitsNumber (x : ℚ) : Op → Prop
  | .gt n => n.value < x
  | .gte n => n.value ≤ x
  | .lt n => x < n.value
  | .lte n => x ≤ n.value
  | .positive => 0 < x
  | .nonnegative => 0 ≤ x
  | .negative => x < 0
  | .nonpositive => x ≤ 0
  | _ => True

variable {op : Op} {ops : List Op} {x : ℚ}

theorem Op.admitsNumber_of_comparison? (h : op.comparison? = none) : op.AdmitsNumber x := by
  cases op with
  | gt | gte | lt | lte | positive | nonnegative | negative | nonpositive => cases h
  | _ => trivial

theorem Op.comparison?_of_isSize (h : op.isSize = true) : op.comparison? = none := by
  cases op with
  | min | max | nonempty => rfl
  | _ => cases h

theorem Op.comparison?_of_isClosing (h : op.isClosing = true) : op.comparison? = none := by
  cases op with
  | default | optional => rfl
  | _ => cases h

/-- Only comparisons can fail to admit a number. -/
theorem forall_admitsNumber_iff : (∀ op ∈ ops, op.AdmitsNumber x) ↔
    ∀ op ∈ ops.filter (·.comparison?.isSome), op.AdmitsNumber x := by
  constructor
  · intro h op hop
    exact h op (List.mem_of_mem_filter hop)
  · intro h op hop
    cases hcomparison : op.comparison? with
    | none => exact Op.admitsNumber_of_comparison? hcomparison
    | some cmp => exact h op (List.mem_filter.mpr ⟨hop, by rw [hcomparison]; rfl⟩)

theorem filter_comparison?_filter (ops : List Op) (cmp : Comparison) :
    (ops.filter (·.comparison?.isSome)).filter (·.comparison? == some cmp) =
      ops.filter (·.comparison? == some cmp) := by
  rw [List.filter_filter]
  apply List.filter_congr
  intro op _
  cases op.comparison? <;> simp

end Schema

namespace Comparison

variable {cmp : Comparison} {n : Number} {x : ℚ}

theorem comparison?_op (cmp : Comparison) (n : Number) : (cmp.op n).comparison? = some cmp := by
  unfold op
  split <;> cases cmp <;> rfl

theorem op_eq (cmp : Comparison) (n : Number) :
    cmp.op n = if n.isZero then cmp.opWithZero else cmp.opWith n := by
  simp only [op, Number.value_eq_zero_iff]

theorem admitsNumber_op_iff : (cmp.op n).AdmitsNumber x ↔ cmp.Holds x n.value := by
  unfold op
  split
  · next hzero => rw [hzero]; cases cmp <;> rfl
  · cases cmp <;> rfl

theorem bound_overlay (cmp : Comparison) (old new : RangeBounds) :
    cmp.bound (RangeBounds.overlay old new) = (cmp.bound new).or (cmp.bound old) := by
  cases cmp <;> exact Option.orElse_eq_or

/-- Each bound of a list of rules comes from the last range rule that sets it. -/
theorem bound_rangeBounds (cmp : Comparison) (rules : List Rule) :
    cmp.bound (Rule.rangeBounds rules) = Rule.lastBound Rule.range? cmp.bound rules := by
  apply Rule.foldl_overlay_eq_lastBound cmp.bound_overlay
  cases cmp <;> rfl

end Comparison

namespace RangeBounds

variable {b : RangeBounds} {x : ℚ}

theorem ops_eq (b : RangeBounds) :
    b.ops = Comparison.all.flatMap fun cmp => (cmp.bound b).toList.map cmp.op := by
  have hgt : gtOp = Comparison.gt.op := funext fun n => (Comparison.gt.op_eq n).symm
  have hgte : gteOp = Comparison.gte.op := funext fun n => (Comparison.gte.op_eq n).symm
  have hlt : ltOp = Comparison.lt.op := funext fun n => (Comparison.lt.op_eq n).symm
  have hlte : lteOp = Comparison.lte.op := funext fun n => (Comparison.lte.op_eq n).symm
  rw [ops, hgt, hgte, hlt, hlte, List.append_assoc, List.append_assoc]
  simp only [Comparison.all, List.flatMap_cons, List.flatMap_nil, List.append_nil]
  rfl

theorem mem_ops_iff {op : Op} :
    op ∈ b.ops ↔ ∃ cmp : Comparison, ∃ n ∈ cmp.bound b, op = cmp.op n := by
  have hall : ∀ cmp : Comparison, cmp ∈ Comparison.all := fun cmp => by cases cmp <;> decide
  rw [ops_eq, List.mem_flatMap]
  constructor
  · rintro ⟨cmp, -, hop⟩
    obtain ⟨n, hn, rfl⟩ := List.mem_map.mp hop
    exact ⟨cmp, n, Option.mem_toList.mp hn, rfl⟩
  · rintro ⟨cmp, n, hn, rfl⟩
    exact ⟨cmp, hall cmp, List.mem_map_of_mem (Option.mem_toList.mpr hn)⟩

theorem forall_ops_admitsNumber_iff : (∀ op ∈ b.ops, op.AdmitsNumber x) ↔
    ∀ cmp : Comparison, ∀ n ∈ cmp.bound b, cmp.Holds x n.value := by
  constructor
  · intro h cmp n hn
    exact Comparison.admitsNumber_op_iff.mp (h _ (mem_ops_iff.mpr ⟨cmp, n, hn, rfl⟩))
  · intro h op hop
    obtain ⟨cmp, n, hn, rfl⟩ := mem_ops_iff.mp hop
    exact Comparison.admitsNumber_op_iff.mpr (h cmp n hn)

theorem filter_comparison?_ops (b : RangeBounds) (cmp : Comparison) :
    b.ops.filter (·.comparison? == some cmp) = (cmp.bound b).toList.map cmp.op := by
  have hfilter : ∀ other : Comparison,
      ((other.bound b).toList.map other.op).filter (·.comparison? == some cmp) =
        if other = cmp then (other.bound b).toList.map other.op else [] := by
    intro other
    split
    · next heq =>
        rw [heq, List.filter_eq_self]
        intro op hop
        obtain ⟨n, -, rfl⟩ := List.mem_map.mp hop
        rw [Comparison.comparison?_op, beq_self_eq_true]
    · next hne =>
        rw [List.filter_eq_nil_iff]
        intro op hop
        obtain ⟨n, -, rfl⟩ := List.mem_map.mp hop
        rw [Comparison.comparison?_op, beq_iff_eq, Option.some.injEq]
        exact hne
  rw [ops_eq, List.filter_flatMap]
  simp only [hfilter, Comparison.all, List.flatMap_cons, List.flatMap_nil]
  cases cmp <;> simp

end RangeBounds

/-! ## Members -/

namespace Member

variable {sc : Scope} {role : Role} {m : Member} {p : Primitive} {x : ℚ}

theorem elementSchema_of_isNumeric (htype : m.type = .primitive p) (hp : p.isNumeric = true) :
    m.elementSchema sc = m.numberSchema p.isIntegral := by
  rw [elementSchema, htype]
  cases p with
  | number | integer | long | float | double => rfl
  | _ => cases hp

/-- Only the range rules of a numeric member make comparisons. -/
theorem filter_comparisons_schema (htype : m.type = .primitive p) (hp : p.isNumeric = true)
    (hconstant : m.constant = none) :
    (m.schema sc role).ops.filter (·.comparison?.isSome) = (Rule.rangeBounds m.rules).ops := by
  have hrange : ∀ op ∈ (Rule.rangeBounds m.rules).ops, op.comparison?.isSome = true := by
    intro op hop
    obtain ⟨cmp, n, -, rfl⟩ := RangeBounds.mem_ops_iff.mp hop
    rw [Comparison.comparison?_op, Option.isSome_some]
  have hintegral : ∀ op ∈ (if p.isIntegral then [Op.int] else []),
      ¬ op.comparison?.isSome = true := by
    cases p.isIntegral <;> simp [Op.comparison?]
  have hmultiple : ∀ op ∈ (m.rules.filterMap Rule.multipleOf?).map Op.multipleOf,
      ¬ op.comparison?.isSome = true := by
    intro op hop
    obtain ⟨n, -, rfl⟩ := List.mem_map.mp hop
    exact Bool.false_ne_true
  have harray : ∀ op ∈ m.arrayOps, ¬ op.comparison?.isSome = true := by
    intro op hop
    rcases isSize_or_eq_array_of_mem_arrayOps hop with rfl | hsize
    · exact Bool.false_ne_true
    · rw [Op.comparison?_of_isSize hsize]
      exact Bool.false_ne_true
  have hclosing : ∀ op ∈ m.closingOps role, ¬ op.comparison?.isSome = true := by
    intro op hop
    rw [Op.comparison?_of_isClosing (isClosing_of_mem_closingOps hop).1]
    exact Bool.false_ne_true
  rw [ops_schema, elementSchema_of_isNumeric htype hp, numberSchema, hconstant]
  simp only [List.filter_append, List.filter_eq_self.mpr hrange,
    List.filter_eq_nil_iff.mpr hintegral, List.filter_eq_nil_iff.mpr hmultiple,
    List.filter_eq_nil_iff.mpr harray, List.filter_eq_nil_iff.mpr hclosing,
    List.nil_append, List.append_nil]

/-- A number satisfies the operations of a numeric member exactly if it satisfies each bound as the
last range rule that sets it does.  A bound becomes one operation, that for zero exactly if it is
zero.  Rules of other kinds make no difference to the comparisons. -/
theorem schema_compares (htype : m.type = .primitive p) (hp : p.isNumeric = true)
    (hconstant : m.constant = none) (sc : Scope) (role : Role) :
    (∀ x : ℚ, (∀ op ∈ (m.schema sc role).ops, op.AdmitsNumber x) ↔
      ∀ cmp : Comparison, ∀ n ∈ Rule.lastBound Rule.range? cmp.bound m.rules,
        cmp.Holds x n.value) ∧
    (∀ cmp : Comparison, (m.schema sc role).ops.filter (·.comparison? == some cmp) =
      (Rule.lastBound Rule.range? cmp.bound m.rules).toList.map fun n =>
        if n.value = 0 then cmp.opWithZero else cmp.opWith n) ∧
    ∀ rules, Rule.ofKind .range rules = Rule.ofKind .range m.rules →
      (({ m with rules := rules } : Member).schema sc role).ops.filter (·.comparison?.isSome) =
        (m.schema sc role).ops.filter (·.comparison?.isSome) := by
  have hcomparisons : (m.schema sc role).ops.filter (·.comparison?.isSome) =
      (Rule.rangeBounds m.rules).ops := filter_comparisons_schema htype hp hconstant
  refine ⟨?_, ?_, ?_⟩
  · intro x
    rw [Schema.forall_admitsNumber_iff, hcomparisons, RangeBounds.forall_ops_admitsNumber_iff]
    simp only [Comparison.bound_rangeBounds]
  · intro cmp
    rw [← Schema.filter_comparison?_filter, hcomparisons, RangeBounds.filter_comparison?_ops,
      Comparison.bound_rangeBounds]
    rfl
  · intro rules hrules
    have hbounds : Rule.rangeBounds rules = Rule.rangeBounds m.rules := by
      have hrange : rules.filterMap Rule.range? = m.rules.filterMap Rule.range? :=
        Rule.filterMap_eq_of_ofKind (fun r => by cases r <;> simp [Rule.kind, Rule.range?]) hrules
      rw [Rule.rangeBounds, hrange, Rule.rangeBounds]
    rw [hcomparisons, ← hbounds]
    exact filter_comparisons_schema (m := { m with rules := rules }) htype hp hconstant

/-- The lower bound is set twice, at last to a zero with a minus, and the upper bound once. -/
theorem schema_compares_of_negative_zero :
    let zero : Number := .float (Decimal.Binary64.zero true)
    let ten : Number := .integer 10 (by decide)
    let m : Member := { (Member.optional "sizes" (.primitive .integer)).located .query with
      isArray := true,
      rules := [.range ⟨some ten, none, none, some ten⟩, .items ⟨some 1, some 5⟩, .multipleOf ten,
        .range ⟨some zero, none, none, none⟩, .length ⟨none, some 2⟩] }
    let ops := (m.schema ⟨"Page", []⟩ .field).ops
    (∀ op ∈ ops, op.AdmitsNumber 10) ∧ (¬ ∀ op ∈ ops, op.AdmitsNumber 0) ∧
      ops.filter (·.comparison? == some .gt) = [.positive] ∧
      ops.filter (·.comparison? == some .lte) = [.lte ten] := by
  intro zero ten m ops
  obtain ⟨hadmits, hops, -⟩ := schema_compares (m := m) rfl rfl rfl ⟨"Page", []⟩ .field
  have hzero : zero.value = 0 := Number.value_eq_zero_iff.mpr rfl
  have hten : ten.value = 10 := by norm_num [ten, Number.value]
  refine ⟨(hadmits 10).mpr ?_, fun h => ?_, (hops .gt).trans ?_, (hops .lte).trans ?_⟩
  · intro cmp
    cases cmp with
    | gt =>
        rintro n ⟨⟩
        change zero.value < 10
        norm_num [hzero]
    | lte =>
        rintro n ⟨⟩
        exact hten.ge
    | gte | lt => rintro n ⟨⟩
  · have hlower : zero.value < 0 := (hadmits 0).mp h .gt zero rfl
    exact absurd hzero hlower.ne
  · change [if zero.value = 0 then Op.positive else .gt zero] = _
    rw [if_pos hzero]
  · change [if ten.value = 0 then Op.nonpositive else .lte ten] = _
    rw [if_neg (by norm_num [hten])]

end Member

end ServiceSchema
