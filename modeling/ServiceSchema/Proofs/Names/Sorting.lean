import Mathlib.Data.List.Sort
import Mathlib.Data.String.Basic
import Mathlib.Order.RelClasses
import ServiceSchema.Model.Entity
/-!
# Sorted and distinct names

Sorting by name is insertion sort for the order of names, so the laws of insertion sort hold of it.
Where the names are distinct, the sorted list is strictly increasing and no tie is left to the order
of the input.
-/

namespace ServiceSchema.Names

variable {α : Type} (name : α → String)

theorem insertBy_eq_orderedInsert (a : α) (as : List α) :
    insertBy name a as = as.orderedInsert (Order.Preimage name (· ≤ ·)) a := by
  induction as with
  | nil => rfl
  | cons b bs ih =>
      rw [insertBy, List.orderedInsert_cons, ih]
      by_cases h : name b < name a
      · rw [if_pos h, if_neg]
        exact not_le.mpr h
      · rw [if_neg h, if_pos]
        exact not_lt.mp h

theorem sortBy_eq_insertionSort (as : List α) :
    sortBy name as = as.insertionSort (Order.Preimage name (· ≤ ·)) := by
  induction as with
  | nil => rfl
  | cons a as ih =>
      rw [List.insertionSort_cons, ← insertBy_eq_orderedInsert, ← ih]
      rfl

theorem sortBy_perm (as : List α) : (sortBy name as).Perm as := by
  rw [sortBy_eq_insertionSort]
  exact List.perm_insertionSort _ as

@[simp] theorem mem_sortBy {a : α} {as : List α} : a ∈ sortBy name as ↔ a ∈ as :=
  (sortBy_perm name as).mem_iff

theorem pairwise_sortBy (as : List α) :
    (sortBy name as).Pairwise fun a b => name a ≤ name b := by
  rw [sortBy_eq_insertionSort]
  exact List.pairwise_insertionSort (Order.Preimage name (· ≤ ·)) as

theorem pairwise_lt_sortBy {as : List α} (h : (as.map name).Nodup) :
    (sortBy name as).Pairwise fun a b => name a < name b := by
  have hne : (sortBy name as).Pairwise fun a b => name a ≠ name b := by
    rw [← List.pairwise_map]
    exact ((sortBy_perm name as).map name).nodup_iff.mpr h
  exact ((pairwise_sortBy name as).and hne).imp fun hab => lt_of_le_of_ne hab.1 hab.2

/-- Sorting leaves a list as it is whose names do not decrease, the order of equal names
included. -/
theorem sortBy_of_pairwise {as : List α} (h : as.Pairwise fun a b => name a ≤ name b) :
    sortBy name as = as := by
  rw [sortBy_eq_insertionSort]
  exact h.insertionSort_eq

theorem mem_insertDistinct {n m : String} {ns : List String} :
    n ∈ insertDistinct m ns ↔ n = m ∨ n ∈ ns := by
  induction ns with
  | nil => simp [insertDistinct]
  | cons k ks ih =>
      rw [insertDistinct]
      split
      · simp
      · split
        · next heq => simp [heq]
        · rw [List.mem_cons, List.mem_cons, ih]
          tauto

@[simp] theorem mem_distinct {n : String} {ns : List String} : n ∈ distinct ns ↔ n ∈ ns := by
  induction ns with
  | nil => rfl
  | cons m ms ih =>
      change n ∈ insertDistinct m (distinct ms) ↔ _
      rw [mem_insertDistinct, ih, List.mem_cons]

theorem pairwise_lt_insertDistinct {n : String} {ns : List String} (h : ns.Pairwise (· < ·)) :
    (insertDistinct n ns).Pairwise (· < ·) := by
  induction ns with
  | nil => exact List.pairwise_singleton _ n
  | cons m ms ih =>
      obtain ⟨hm, hms⟩ := List.pairwise_cons.mp h
      rw [insertDistinct]
      split
      · next hlt =>
          refine List.pairwise_cons.mpr ⟨?_, h⟩
          intro k hk
          rcases List.mem_cons.mp hk with rfl | hk
          · exact hlt
          · exact hlt.trans (hm k hk)
      · next hnot =>
          split
          · exact h
          · next hne =>
              refine List.pairwise_cons.mpr ⟨?_, ih hms⟩
              intro k hk
              rcases mem_insertDistinct.mp hk with rfl | hk
              · exact lt_of_le_of_ne (not_lt.mp hnot) (Ne.symm hne)
              · exact hm k hk

theorem pairwise_lt_distinct (ns : List String) : (distinct ns).Pairwise (· < ·) := by
  induction ns with
  | nil => exact .nil
  | cons n ns ih => exact pairwise_lt_insertDistinct ih

theorem firstRepeated_eq_none_iff {seen ns : List String} :
    firstRepeated seen ns = none ↔ ns.Nodup ∧ ∀ n ∈ ns, n ∉ seen := by
  induction ns generalizing seen with
  | nil => simp [firstRepeated]
  | cons n ns ih =>
      rw [firstRepeated, List.nodup_cons]
      by_cases hn : n ∈ seen
      · simp [hn]
      · have hnot : seen.contains n = false := by simpa using hn
        rw [hnot, if_neg Bool.false_ne_true, ih]
        simp only [List.mem_cons, not_or, forall_eq_or_imp]
        constructor
        · rintro ⟨hnodup, hfresh⟩
          exact ⟨⟨fun h => (hfresh n h).1 rfl, hnodup⟩, hn, fun m hm => (hfresh m hm).2⟩
        · rintro ⟨⟨hnew, hnodup⟩, -, hfresh⟩
          exact ⟨hnodup, fun m hm => ⟨fun h => hnew (h ▸ hm), hfresh m hm⟩⟩

/-- The names before the first repeated one are distinct and have not been seen. -/
theorem firstRepeated_eq_some_iff {seen ns : List String} {n : String} :
    firstRepeated seen ns = some n ↔
      ∃ before after, ns = before ++ n :: after ∧ before.Nodup ∧ (∀ m ∈ before, m ∉ seen) ∧
        (n ∈ seen ∨ n ∈ before) := by
  induction ns generalizing seen with
  | nil => simp [firstRepeated]
  | cons m ms ih =>
      rw [firstRepeated]
      by_cases hm : m ∈ seen
      · rw [if_pos (by simpa using hm), Option.some_inj]
        constructor
        · rintro rfl
          exact ⟨[], ms, rfl, .nil, List.forall_mem_nil _, Or.inl hm⟩
        · rintro ⟨before, after, hsplit, -, hfresh, -⟩
          rcases List.cons_eq_append_iff.mp hsplit with ⟨-, hcons⟩ | ⟨rest, rfl, -⟩
          · exact (List.cons_eq_cons.mp hcons).1.symm
          · exact absurd hm (hfresh m List.mem_cons_self)
      · rw [if_neg (by simpa using hm), ih]
        constructor
        · rintro ⟨before, after, rfl, hnodup, hfresh, hrepeated⟩
          have hnew : m ∉ before := fun hmem => hfresh m hmem List.mem_cons_self
          refine ⟨m :: before, after, rfl, List.nodup_cons.mpr ⟨hnew, hnodup⟩, ?_, ?_⟩
          · exact List.forall_mem_cons.mpr
              ⟨hm, fun k hk hseen => hfresh k hk (List.mem_cons_of_mem _ hseen)⟩
          · simp only [List.mem_cons] at hrepeated ⊢
            tauto
        · rintro ⟨before, after, hsplit, hnodup, hfresh, hrepeated⟩
          rcases List.cons_eq_append_iff.mp hsplit with ⟨rfl, hcons⟩ | ⟨rest, rfl, rfl⟩
          · obtain rfl := (List.cons_eq_cons.mp hcons).1
            exact absurd hrepeated (by simp [hm])
          · obtain ⟨hnew, hnodup⟩ := List.nodup_cons.mp hnodup
            obtain ⟨-, hfresh⟩ := List.forall_mem_cons.mp hfresh
            refine ⟨rest, after, rfl, hnodup, ?_, ?_⟩
            · intro k hk hseen
              rcases List.mem_cons.mp hseen with rfl | hseen
              · exact hnew hk
              · exact hfresh k hk hseen
            · simp only [List.mem_cons] at hrepeated ⊢
              tauto

theorem find?_name_eq_some {name : α → String} {as : List α} {a : α} (h : (as.map name).Nodup)
    (ha : a ∈ as) : as.find? (name · == name a) = some a := by
  induction as with
  | nil => exact absurd ha List.not_mem_nil
  | cons b bs ih =>
      obtain ⟨hb, hbs⟩ := List.nodup_cons.mp h
      rcases List.mem_cons.mp ha with rfl | ha
      · exact List.find?_cons_of_pos (beq_self_eq_true _)
      · have hne : name b ≠ name a := fun heq => hb (heq ▸ List.mem_map_of_mem ha)
        rw [List.find?_cons_of_neg (by simpa using hne)]
        exact ih hbs ha

/-- Where names are distinct, nobody before a bearer has its name. -/
theorem name_notMem_of_nodup {name : α → String} {before after : List α} {a : α}
    (h : ((before ++ a :: after).map name).Nodup) : name a ∉ before.map name := by
  rw [List.map_append, List.map_cons] at h
  exact fun hmem => List.disjoint_of_nodup_append h hmem List.mem_cons_self

end ServiceSchema.Names
