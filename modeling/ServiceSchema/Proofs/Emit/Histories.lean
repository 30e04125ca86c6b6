import ServiceSchema.Emit.Registry
import Mathlib.Data.List.Basic
/-!
# Histories of the registry

A program calls the registry any number of times and in any order.  Whichever call comes first, the
registry then holds the built-in backends, followed by the registered ones in the order of their
registration, and every call answers from this list.  Registration only adds to its end, so what a
name has once been found to mean it means for the rest of the run.
-/

namespace ServiceSchema.Registry

inductive Operation where
  | register (b : Backend)
  | find (name : String)
  | list
  | names

inductive Answer where
  | registered
  | found (b : Option Backend)
  | listed (bs : List Backend)
  | named (ns : List String)

namespace Operation

def call : Operation → Call Answer
  | register b => do
    Registry.register b
    return .registered
  | find name => return .found (← Registry.find? name)
  | list => return .listed (← Registry.all)
  | names => return .named (← Registry.names)

def registered? : Operation → Option Backend
  | register b => some b
  | _ => none

def answerFrom (bs : List Backend) : Operation → Answer
  | register _ => .registered
  | find name => .found (bs.find? (·.name == name))
  | list => .listed bs
  | names => .named (bs.map Backend.name)

/-- A call answers from the list that it finds and leaves it with at most one backend more. -/
theorem run_call (op : Operation) (r : Registry) :
    op.call.run r = (op.answerFrom r.backends, ⟨some (r.backends ++ op.registered?.toList)⟩) := by
  cases op with
  | register b => rfl
  | find name | list | names =>
      change (_, (⟨some r.backends⟩ : Registry)) = (_, ⟨some (r.backends ++ [])⟩)
      rw [List.append_nil]
      rfl

end Operation

def history : List Operation → Call (List Answer)
  | [] => return []
  | op :: ops => do return (← op.call) :: (← history ops)

def additions (ops : List Operation) : List Backend :=
  ops.filterMap Operation.registered?

def answers (r : Registry) (ops : List Operation) : List Answer :=
  ((history ops).run r).1

def after (r : Registry) (ops : List Operation) : Registry :=
  ((history ops).run r).2

theorem answers_cons (r : Registry) (op : Operation) (ops : List Operation) :
    r.answers (op :: ops) = op.answerFrom r.backends :: (r.after [op]).answers ops := by
  change (op.call.run r).1 :: _ = _
  rw [op.run_call]
  rfl

theorem after_cons (r : Registry) (op : Operation) (ops : List Operation) :
    r.after (op :: ops) = (r.after [op]).after ops := rfl

theorem backends_after_singleton (r : Registry) (op : Operation) :
    (r.after [op]).backends = r.backends ++ op.registered?.toList := by
  change (op.call.run r).2.backends = _
  rw [op.run_call]
  rfl

theorem additions_cons (op : Operation) (ops : List Operation) :
    additions (op :: ops) = op.registered?.toList ++ additions ops := by
  unfold additions
  rw [List.filterMap_cons]
  cases op.registered? <;> rfl

theorem backends_after (r : Registry) (ops : List Operation) :
    (r.after ops).backends = r.backends ++ additions ops := by
  induction ops generalizing r with
  | nil => exact (List.append_nil _).symm
  | cons op ops ih =>
      calc (r.after (op :: ops)).backends
          = (r.after [op]).backends ++ additions ops := by rw [after_cons, ih]
        _ = (r.backends ++ op.registered?.toList) ++ additions ops := by
            rw [backends_after_singleton]
        _ = r.backends ++ additions (op :: ops) := by rw [additions_cons, List.append_assoc]

/-- Each call answers from the backends that were listed before the history, followed by those that
the calls before it have registered. -/
theorem getElem?_answers (r : Registry) (ops : List Operation) (i : Nat) :
    (r.answers ops)[i]? =
      ops[i]?.map (Operation.answerFrom (r.backends ++ additions (ops.take i))) := by
  induction ops generalizing r i with
  | nil => rfl
  | cons op ops ih =>
      rw [answers_cons]
      cases i with
      | zero =>
          have hnone : r.backends ++ additions ((op :: ops).take 0) = r.backends :=
            List.append_nil _
          rw [hnone]
          rfl
      | succ i =>
          rw [List.getElem?_cons_succ, List.getElem?_cons_succ, ih, backends_after_singleton,
            List.take_succ_cons, additions_cons, List.append_assoc]

theorem find?_eq_some_iff {r : Registry} {name : String} {b : Backend} :
    ((find? name).run r).1 = some b ↔
      ∃ before later, r.backends = before ++ b :: later ∧ b.name = name ∧
        ∀ c ∈ before, c.name ≠ name := by
  change r.backends.find? (·.name == name) = some b ↔ _
  rw [List.find?_eq_some_iff_append]
  simp only [beq_iff_eq, Bool.not_eq_true', beq_eq_false_iff_ne]
  constructor
  · rintro ⟨hname, before, later, hsplit, hbefore⟩
    exact ⟨before, later, hsplit, hname, hbefore⟩
  · rintro ⟨before, later, hsplit, hname, hbefore⟩
    exact ⟨hname, before, later, hsplit, hbefore⟩

theorem find?_eq_none_iff {r : Registry} {name : String} :
    ((find? name).run r).1 = none ↔ ∀ b ∈ r.backends, b.name ≠ name := by
  change r.backends.find? (·.name == name) = none ↔ _
  simp only [List.find?_eq_none, beq_iff_eq, ne_eq]

/-- A name that has been found keeps its backend, whatever is called in between. -/
theorem find?_after {r : Registry} {name : String} {b : Backend}
    (h : ((find? name).run r).1 = some b) (ops : List Operation) :
    ((find? name).run (r.after ops)).1 = some b := by
  obtain ⟨before, later, hsplit, hname, hbefore⟩ := find?_eq_some_iff.mp h
  apply find?_eq_some_iff.mpr
  refine ⟨before, later ++ additions ops, ?_, hname, hbefore⟩
  rw [backends_after, hsplit, List.append_assoc, List.cons_append]

theorem answer_find_iff {r : Registry} {ops : List Operation} {i : Nat} {name : String}
    (hi : ops[i]? = some (.find name)) (found : Option Backend) :
    (r.answers ops)[i]? = some (.found found) ↔
      ((find? name).run (r.after (ops.take i))).1 = found := by
  have hanswer : (r.answers ops)[i]? =
      some (.found ((find? name).run (r.after (ops.take i))).1) := by
    rw [getElem?_answers, hi, ← backends_after]
    rfl
  rw [hanswer, Option.some.injEq, Answer.found.injEq]

theorem after_append (r : Registry) (ops more : List Operation) :
    r.after (ops ++ more) = (r.after ops).after more := by
  induction ops generalizing r with
  | nil => rfl
  | cons op ops ih => rw [List.cons_append, after_cons, ih, ← after_cons]

theorem answer_find_stable {r : Registry} {ops : List Operation} {i j : Nat} {name : String}
    {b : Backend} (hij : i ≤ j) (hi : ops[i]? = some (.find name))
    (hj : ops[j]? = some (.find name)) (h : (r.answers ops)[i]? = some (.found (some b))) :
    (r.answers ops)[j]? = some (.found (some b)) := by
  have hfound : ((find? name).run (r.after (ops.take i))).1 = some b :=
    (answer_find_iff hi _).mp h
  have hbetween : ops.take j = ops.take i ++ (ops.take j).drop i := by
    conv_lhs => rw [← List.take_append_drop i (ops.take j), List.take_take, Nat.min_eq_left hij]
  apply (answer_find_iff hj _).mpr
  rw [hbetween, after_append]
  exact find?_after hfound _

/-! ## From the start of a program -/

/-- Whatever is called, and whichever call comes first: the registry lists the built-in backends and
then the registered ones in the order of their registration, each call answers from the list that
the calls before it make up, a look-up finds the earliest backend of a name, and what it has found
it finds again.  The built-in backends are never displaced. -/
theorem history_unopened (ops : List Operation) :
    (all.run (unopened.after ops)).1 = [.module, .dump] ++ additions ops ∧
    (∀ i : Nat, (unopened.answers ops)[i]? =
      ops[i]?.map (Operation.answerFrom ([.module, .dump] ++ additions (ops.take i)))) ∧
    (∀ name b, ((find? name).run (unopened.after ops)).1 = some b ↔
      ∃ before later, [.module, .dump] ++ additions ops = before ++ b :: later ∧ b.name = name ∧
        ∀ c ∈ before, c.name ≠ name) ∧
    (∀ name, ((find? name).run (unopened.after ops)).1 = none ↔
      ∀ b ∈ [.module, .dump] ++ additions ops, b.name ≠ name) ∧
    (∀ (i j : Nat) name b, i ≤ j → ops[i]? = some (.find name) → ops[j]? = some (.find name) →
      (unopened.answers ops)[i]? = some (.found (some b)) →
      (unopened.answers ops)[j]? = some (.found (some b))) ∧
    ∀ b ∈ Backend.builtIn, ((find? b.name).run (unopened.after ops)).1 = some b := by
  have hlisted : (unopened.after ops).backends = [.module, .dump] ++ additions ops :=
    backends_after unopened ops
  refine ⟨hlisted, getElem?_answers unopened ops, ?_, ?_, ?_, ?_⟩
  · intro name b
    rw [← hlisted]
    exact find?_eq_some_iff
  · intro name
    rw [← hlisted]
    exact find?_eq_none_iff
  · intro i j name b hij hi hj
    exact answer_find_stable hij hi hj
  · intro b hb
    have hfirst : ((find? b.name).run unopened).1 = some b := by
      rcases List.mem_pair.mp hb with rfl | rfl <;> rfl
    exact find?_after hfirst ops

/-- The first call registers a backend; later ones try to take its name and that of a built-in one,
before the first name is looked up again. -/
theorem history_unopened_of_repeated_names :
    let count : Backend := ⟨"count", "txt", fun s _ => toString s.all.length⟩
    let other : Backend := ⟨"count", "md", fun _ _ => ""⟩
    let shadowed : Backend := ⟨"zod", "js", fun _ _ => ""⟩
    let ops : List Operation :=
      [.register count, .find "count", .register other, .register shadowed, .find "count", .names]
    (unopened.answers ops)[4]? = some (.found (some count)) ∧
      ((find? "zod").run (unopened.after ops)).1 = some .module ∧
      (unopened.answers ops)[5]? =
        some (.named ["zod", "json", "count", "count", "zod"]) := by
  intro count other shadowed ops
  obtain ⟨-, hanswers, -, -, hstable, hbuiltIn⟩ := history_unopened ops
  refine ⟨hstable 1 4 "count" count (by decide) rfl rfl rfl, ?_, ?_⟩
  · exact hbuiltIn .module List.mem_cons_self
  · rw [hanswers]
    rfl

end ServiceSchema.Registry
