import Mathlib.Data.List.Basic
import Mathlib.Data.List.Induction
import ServiceSchema.Model.Rule
/-!
# The rules that decide a bound

A rule may leave bounds open, so the bounds of a list of rules are gathered one by one: for each of
them the last rule that sets it decides.  `Rule.lastBound` says this of one bound of one kind of
rules, and `foldl_overlay_eq` that laying rules over one another comes to the same.  Rules of other
kinds play no part, whatever their places among the rules.
-/

namespace ServiceSchema

variable {α β : Type}

namespace Rule

/-- The value that the last rule that sets a bound gives to it; `bounds?` tells the kind of the
rules, and `bound` which of their bounds is meant. -/
def lastBound (bounds? : Rule → Option β) (bound : β → Option α) (rules : List Rule) : Option α :=
  ((rules.filterMap bounds?).filterMap bound).getLast?

def ofKind (k : Kind) (rules : List Rule) : List Rule :=
  rules.filter (·.kind == k)

/-- What concerns rules of one kind only is the same for lists with the same rules of that kind. -/
theorem filterMap_eq_of_ofKind {f : Rule → Option α} {k : Kind} {xs ys : List Rule}
    (hf : ∀ r, r.kind ≠ k → f r = none) (h : ofKind k xs = ofKind k ys) :
    xs.filterMap f = ys.filterMap f := by
  have hrestrict : ∀ rules : List Rule, (ofKind k rules).filterMap f = rules.filterMap f := by
    intro rules
    rw [ofKind, List.filterMap_filter]
    apply List.filterMap_congr
    intro r _
    by_cases hk : r.kind = k
    · rw [hk, beq_self_eq_true, if_pos rfl]
    · rw [hf r hk, ite_self]
  rw [← hrestrict xs, h, hrestrict ys]

/-- Bounds that are laid over one another leave the last value of each. -/
theorem foldl_overlay_eq {overlay : β → β → β} {bound : β → Option α}
    (hoverlay : ∀ old new, bound (overlay old new) = (bound new).or (bound old)) (bs : List β)
    (first : β) : bound (bs.foldl overlay first) =
      ((bs.filterMap bound).getLast?).or (bound first) := by
  -- The last of the bounds is laid over what all the others leave.
  induction bs using List.reverseRecOn with
  | nil => rfl
  | append_singleton bs b ih =>
      have hlast : ((bs ++ [b]).filterMap bound).getLast? =
          (bound b).or ((bs.filterMap bound).getLast?) := by
        rw [List.filterMap_append, List.getLast?_append]
        cases hb : bound b <;> simp [hb]
      rw [List.foldl_append, List.foldl_cons, List.foldl_nil, hoverlay, ih, hlast, Option.or_assoc]

/-- The bounds of rules that are laid over open bounds are those that the last rules give. -/
theorem foldl_overlay_eq_lastBound {overlay : β → β → β} {bound : β → Option α} {first : β}
    (hoverlay : ∀ old new, bound (overlay old new) = (bound new).or (bound old))
    (hfirst : bound first = none) (bounds? : Rule → Option β) (rules : List Rule) :
    bound ((rules.filterMap bounds?).foldl overlay first) = lastBound bounds? bound rules := by
  rw [foldl_overlay_eq hoverlay, hfirst, Option.or_none]
  rfl

end Rule

namespace CountBounds

def Admits (b : CountBounds) (n : Nat) : Prop :=
  (∀ least ∈ b.min, least.toNat ≤ n) ∧ ∀ greatest ∈ b.max, n ≤ greatest.toNat

instance (b : CountBounds) (n : Nat) : Decidable (b.Admits n) :=
  @instDecidableAnd _ _ (Option.decidableForallMem b.min) (Option.decidableForallMem b.max)

def ofLast (bounds? : Rule → Option CountBounds) (rules : List Rule) : CountBounds :=
  ⟨Rule.lastBound bounds? CountBounds.min rules, Rule.lastBound bounds? CountBounds.max rules⟩

theorem foldl_overlay (bounds? : Rule → Option CountBounds) (rules : List Rule) :
    (rules.filterMap bounds?).foldl overlay unbounded = ofLast bounds? rules := by
  have hmin : ((rules.filterMap bounds?).foldl overlay unbounded).min =
      Rule.lastBound bounds? CountBounds.min rules :=
    Rule.foldl_overlay_eq_lastBound (fun _ _ => Option.orElse_eq_or) rfl bounds? rules
  have hmax : ((rules.filterMap bounds?).foldl overlay unbounded).max =
      Rule.lastBound bounds? CountBounds.max rules :=
    Rule.foldl_overlay_eq_lastBound (fun _ _ => Option.orElse_eq_or) rfl bounds? rules
  exact congrArg₂ CountBounds.mk hmin hmax

end CountBounds

namespace Rule

theorem lengthBounds_eq (rules : List Rule) :
    lengthBounds rules = CountBounds.ofLast length? rules :=
  CountBounds.foldl_overlay length? rules

theorem itemBounds_eq (rules : List Rule) : itemBounds rules = CountBounds.ofLast items? rules :=
  CountBounds.foldl_overlay items? rules

theorem keyBounds_eq (rules : List Rule) : keyBounds rules = CountBounds.ofLast keys? rules :=
  CountBounds.foldl_overlay keys? rules

end Rule

end ServiceSchema
