import ServiceSchema.Proofs.Emit.Pieces
import ServiceSchema.Proofs.Schema.Tagged
/-!
# How schemas and operations open

The text of a base other than a reference begins with a word of a fixed list, the text of an
operation with a word of another, and no word of a list begins another.  What can follow a base
begins like none of the bases' words without their `z`, so a reference to `z` is never taken for
the start of another base.
-/

namespace ServiceSchema

open Text (StopsRun run_append_inj)

namespace Emit

def BeginsWith (words : List String) (x : List Char) : Prop := ∃ w ∈ words, w.toList <+: x

def PrefixFree (words : List String) : Prop :=
  ∀ v ∈ words, ∀ w ∈ words, v.toList <+: w.toList → v = w

instance (words : List String) : Decidable (PrefixFree words) :=
  inferInstanceAs (Decidable (∀ v ∈ words, ∀ w ∈ words, v.toList <+: w.toList → v = w))

theorem PrefixFree.eq_of_append_eq {words : List String} (hwords : PrefixFree words)
    {v w : String} (hv : v ∈ words) (hw : w ∈ words) {s t x y : List Char} (hs : v.toList <+: s)
    (ht : w.toList <+: t) (h : s ++ x = t ++ y) : v = w := by
  have hvs : v.toList <+: s ++ x := hs.trans (List.prefix_append s x)
  have hws : w.toList <+: s ++ x := h ▸ ht.trans (List.prefix_append t y)
  rcases List.prefix_or_prefix_of_prefix hvs hws with hvw | hwv
  · exact hwords v hv w hw hvw
  · exact (hwords w hw v hv hwv).symm

end Emit

open Emit

namespace Schema

variable {o : EmitOptions} {d : Nat} {x y : List Char}

/-! ## Operations -/

/-- What the text of an operation begins with, whatever it holds. -/
def Op.opening : Op → String
  | .int => ".int()"
  | .min _ => ".min("
  | .max _ => ".max("
  | .length _ => ".length("
  | .nonempty => ".nonempty()"
  | .regex _ => ".regex(new RegExp("
  | .gt _ => ".gt("
  | .gte _ => ".gte("
  | .lt _ => ".lt("
  | .lte _ => ".lte("
  | .positive => ".positive()"
  | .nonnegative => ".nonnegative()"
  | .negative => ".negative()"
  | .nonpositive => ".nonpositive()"
  | .multipleOf _ => ".multipleOf("
  | .default _ => ".default("
  | .array => ".array()"
  | .optional => ".optional()"
  | .catchall _ => ".catchall("
  | .minKeys _ _ => ".refine((value) => Object.keys(value).length >= "
  | .maxKeys _ _ => ".refine((value) => Object.keys(value).length <= "
  | .keyCheck _ _ => ".superRefine((value, ctx) => \x7b"

def Op.openings : List String :=
  [".int()", ".min(", ".max(", ".length(", ".nonempty()", ".regex(new RegExp(", ".gt(", ".gte(",
    ".lt(", ".lte(", ".positive()", ".nonnegative()", ".negative()", ".nonpositive()",
    ".multipleOf(", ".default(", ".array()", ".optional()", ".catchall(",
    ".refine((value) => Object.keys(value).length >= ",
    ".refine((value) => Object.keys(value).length <= ", ".superRefine((value, ctx) => \x7b"]

theorem Op.openings_prefixFree : PrefixFree Op.openings := by
  decide +kernel

theorem Op.opening_mem (op : Op) : op.opening ∈ Op.openings := by
  cases op <;> simp [Op.opening, Op.openings]

theorem Op.opening_isPrefix (o : EmitOptions) (d : Nat) (op : Op) :
    op.opening.toList <+: op.textAt o d := by
  cases op with
  | keyCheck key known =>
      unfold Op.textAt
      simp only [Op.opening, List.append_assoc]
      exact List.prefix_append _ _
  | minKeys count message | maxKeys count message =>
      unfold Op.textAt keyCount
      simp [Op.opening]
  | _ =>
      unfold Op.textAt
      simp [Op.opening, call, callWith]

theorem Op.sameKind_of_opening_eq {op op' : Op} (h : op.opening = op'.opening) :
    op.SameKind op' := by
  cases op <;> cases op' <;> first | constructor | simp [opening] at h

theorem Op.sameKind_of_textAt_append_eq {op op' : Op}
    (h : op.textAt o d ++ x = op'.textAt o d ++ y) : op.SameKind op' :=
  sameKind_of_opening_eq (Op.openings_prefixFree.eq_of_append_eq op.opening_mem op'.opening_mem
    (op.opening_isPrefix o d) (op'.opening_isPrefix o d) h)

/-! ## What follows a base -/

end Schema

namespace Emit

open Schema

def closers : List String :=
  [",", ")", "]", ";", ".safeParse("]

/-- The text does not continue a schema. -/
def Ends (x : List Char) : Prop := BeginsWith closers x

/-- The text goes on with an operation or does not continue the schema. -/
def Follows (x : List Char) : Prop := BeginsWith (Op.openings ++ closers) x

theorem Ends.follows {x : List Char} : Ends x → Follows x := by
  rintro ⟨w, hw, hwx⟩
  exact ⟨w, List.mem_append_right _ hw, hwx⟩

theorem follows_textAt_append (o : EmitOptions) (d : Nat) (op : Op) (x : List Char) :
    Follows (op.textAt o d ++ x) :=
  ⟨op.opening, List.mem_append_left _ op.opening_mem,
    (op.opening_isPrefix o d).trans (List.prefix_append _ x)⟩

theorem not_ends_textAt_append (o : EmitOptions) (d : Nat) (op : Op) (x : List Char) :
    ¬ Ends (op.textAt o d ++ x) := by
  have hdisjoint : ∀ v ∈ Op.openings, ∀ w ∈ closers,
      ¬ v.toList <+: w.toList ∧ ¬ w.toList <+: v.toList := by
    decide +kernel
  rintro ⟨w, hw, hwx⟩
  obtain ⟨hvw, hwv⟩ := hdisjoint op.opening op.opening_mem w hw
  have hvx := (op.opening_isPrefix o d).trans (List.prefix_append _ x)
  exact (List.prefix_or_prefix_of_prefix hvx hwx).elim hvw hwv

def startsFollower (c : Char) : Bool :=
  c == '.' || c == ',' || c == ')' || c == ']' || c == ';'

theorem isWordChar_eq_false_of_startsFollower {c : Char} (hc : startsFollower c = true) :
    isWordChar c = false := by
  simp only [startsFollower, Bool.or_eq_true, beq_iff_eq] at hc
  rcases hc with (((rfl | rfl) | rfl) | rfl) | rfl <;> rfl

theorem Follows.exists_head {x : List Char} (hx : Follows x) :
    ∃ c, x.head? = some c ∧ startsFollower c = true := by
  have hstarts : ∀ w ∈ Op.openings ++ closers, w.toList.head?.any startsFollower = true := by
    decide +kernel
  obtain ⟨w, hw, t, rfl⟩ := hx
  have hstart := hstarts w hw
  cases hwc : w.toList.head? with
  | none =>
      rw [hwc] at hstart
      exact absurd hstart (by simp)
  | some c =>
      rw [hwc] at hstart
      exact ⟨c, by rw [List.head?_append, hwc, Option.some_or], hstart⟩

theorem Follows.stopsRun {x : List Char} (hx : Follows x) : StopsRun isWordChar x := by
  obtain ⟨c, hxc, hc⟩ := hx.exists_head
  intro e he
  rw [hxc] at he
  rw [← Option.some.inj he]
  exact isWordChar_eq_false_of_startsFollower hc

theorem Follows.head?_ne_blank {x : List Char} (hx : Follows x) : x.head? ≠ some ' ' := by
  obtain ⟨c, hxc, hc⟩ := hx.exists_head
  rw [hxc]
  rintro ⟨⟩
  exact absurd hc (by decide)

end Emit

namespace Schema

variable {o : EmitOptions} {d : Nat} {x y : List Char}

/-! ## Bases -/

def Base.opening : Base → String
  | .string => "z.string()"
  | .number coerce => if coerce then "z.coerce.number()" else "z.number()"
  | .boolean coerce => if coerce then "z.coerce.boolean()" else "z.boolean()"
  | .date coerce => if coerce then "z.coerce.date()" else "z.date()"
  | .any => "z.any()"
  | .null => "z.null()"
  | .literal _ => "z.literal("
  | .enum _ => "z.enum("
  | .ref _ => ""
  | .lazy _ => "z.lazy(() => "
  | .object _ => "z.object(\x7b"
  | .record _ => "z.record(z.string(), "
  | .union _ => "z.union(["
  | .discriminatedUnion _ _ => "z.discriminatedUnion("
  | .unsupported _ => "z.any()"

def Base.openings : List String :=
  ["z.string()", "z.number()", "z.coerce.number()", "z.boolean()", "z.coerce.boolean()",
    "z.date()", "z.coerce.date()", "z.any()", "z.null()", "z.literal(", "z.enum(",
    "z.lazy(() => ", "z.object(\x7b", "z.record(z.string(), ", "z.union([",
    "z.discriminatedUnion("]

theorem Base.openings_prefixFree : PrefixFree Base.openings := by
  decide +kernel

theorem Base.opening_mem {b : Base} (hb : ∀ n, b ≠ .ref n) : b.opening ∈ Base.openings := by
  cases b with
  | number coerce | boolean coerce | date coerce => cases coerce <;> simp [opening, openings]
  | ref n => exact absurd rfl (hb n)
  | _ => simp [opening, openings]

theorem Base.opening_isPrefix (o : EmitOptions) (d : Nat) (b : Base) :
    b.opening.toList <+: b.textAt o d := by
  cases b with
  | number coerce | boolean coerce | date coerce =>
      unfold textAt
      cases coerce <;> simp [opening, primitive]
  | object fields =>
      unfold textAt
      cases fields <;> simp [opening]
  | _ =>
      unfold textAt
      simp [opening, primitive]

theorem Base.opening_eq {b b' : Base} (hb : ∀ n, b ≠ .ref n) (hb' : ∀ n, b' ≠ .ref n)
    (h : b.textAt o d ++ x = b'.textAt o d ++ y) : b.opening = b'.opening :=
  Base.openings_prefixFree.eq_of_append_eq (opening_mem hb) (opening_mem hb')
    (b.opening_isPrefix o d) (b'.opening_isPrefix o d) h

/-- An opening tells the base, except that an unsupported construct opens like any value. -/
theorem Base.sameKind_of_opening_eq {b b' : Base} (hb : ∀ n, b ≠ .ref n) (hb' : ∀ n, b' ≠ .ref n)
    (h : b.opening = b'.opening) :
    b.SameKind b' ∨ (∃ reason, b = .any ∧ b' = .unsupported reason) ∨
      ∃ reason, b = .unsupported reason ∧ b' = .any := by
  cases b <;> cases b' <;> first
    | exact Or.inl (by constructor)
    | exact Or.inr (Or.inl ⟨_, rfl, rfl⟩)
    | exact Or.inr (Or.inr ⟨_, rfl, rfl⟩)
    | exact absurd rfl (hb _)
    | exact absurd rfl (hb' _)
    | grind [opening]

/-- A reference and what follows it are no other base, even if the identifier is `z`. -/
theorem Base.textAt_append_ne_identifier (ho : WordSuffix o) {b : Base} (hb : ∀ n, b ≠ .ref n)
    {n : String} (hn : isIdentifier n.toList = true) (hy : Follows y) :
    b.textAt o d ++ x ≠ (o.identifier n).toList ++ y := by
  have hz : ∀ w ∈ Base.openings, ['z', '.'] <+: w.toList := by
    decide +kernel
  have hdisjoint : ∀ v ∈ Op.openings ++ closers, ∀ w ∈ Base.openings,
      ¬ v.toList <+: w.toList.tail ∧ ¬ w.toList.tail <+: v.toList := by
    decide +kernel
  intro h
  obtain ⟨t, ht⟩ := hz b.opening (opening_mem hb)
  obtain ⟨u, hu⟩ := b.opening_isPrefix o d
  rw [← hu, ← ht, List.append_assoc, List.append_assoc] at h
  have hword : ∀ c ∈ ['z'], isWordChar c = true := List.forall_mem_singleton.mpr rfl
  -- The word of the base is `z`, so what follows the reference goes on with the base.
  obtain ⟨-, hrest⟩ := run_append_inj hword (fun _ => isWordChar_of_mem_identifier ho hn)
    (.cons rfl) hy.stopsRun h
  obtain ⟨v, hv, hvy⟩ := hy
  obtain ⟨hvw, hwv⟩ := hdisjoint v hv b.opening (opening_mem hb)
  have hwy : b.opening.toList.tail <+: y := ⟨u ++ x, by rw [← hrest, ← ht]; simp⟩
  exact (List.prefix_or_prefix_of_prefix hvy hwy).elim hvw hwv

end Schema

end ServiceSchema
