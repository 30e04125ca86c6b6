import Mathlib.Data.List.Basic
import Mathlib.Data.String.Basic
import ServiceSchema.Json.Basic
/-!
# Values in sorted form

Sorting the entries of an object leaves increasing keys and changes nothing where the keys increase
already.  So sorting a value twice is sorting it once, and canonical values, which nest no deeper
than a reader allows, are the ones that come out of it.
-/

namespace ServiceSchema.Json

variable {α : Type}

/-! ## Entries -/

def Increasing (es : List (String × α)) : Prop := es.Pairwise fun e f => e.1 < f.1

instance (es : List (String × α)) : Decidable (Increasing es) :=
  inferInstanceAs (Decidable (es.Pairwise _))

theorem mem_insertEntry {key : String} {value : α} {es : List (String × α)} {e : String × α}
    (h : e ∈ insertEntry key value es) : e = (key, value) ∨ e ∈ es := by
  induction es with
  | nil => exact Or.inl (List.mem_singleton.mp h)
  | cons f rest ih =>
      rw [insertEntry] at h
      split at h
      · exact List.mem_cons.mp h
      split at h
      · rcases List.mem_cons.mp h with rfl | h
        · exact Or.inl rfl
        · exact Or.inr (List.mem_cons_of_mem _ h)
      · rcases List.mem_cons.mp h with rfl | h
        · exact Or.inr List.mem_cons_self
        · exact (ih h).imp_right (List.mem_cons_of_mem _)

theorem increasing_insertEntry {key : String} {value : α} {es : List (String × α)}
    (h : Increasing es) : Increasing (insertEntry key value es) := by
  induction es with
  | nil => exact List.pairwise_singleton _ _
  | cons f rest ih =>
      obtain ⟨hf, hrest⟩ := List.pairwise_cons.mp h
      rw [insertEntry]
      split
      · next hlt =>
          refine List.pairwise_cons.mpr ⟨?_, h⟩
          exact List.forall_mem_cons.mpr ⟨hlt, fun e he => lt_trans hlt (hf e he)⟩
      split
      · next heq =>
          subst heq
          exact List.pairwise_cons.mpr ⟨hf, hrest⟩
      · next hnlt hne =>
          have hgt : f.1 < key := lt_of_le_of_ne (not_lt.mp hnlt) (Ne.symm hne)
          refine List.pairwise_cons.mpr ⟨fun e he => ?_, ih hrest⟩
          rcases mem_insertEntry he with rfl | he
          · exact hgt
          · exact hf e he

theorem insertEntry_eq_append {key : String} {value : α} {es : List (String × α)}
    (h : ∀ e ∈ es, e.1 < key) : insertEntry key value es = es ++ [(key, value)] := by
  induction es with
  | nil => rfl
  | cons f rest ih =>
      obtain ⟨hf, hrest⟩ := List.forall_mem_cons.mp h
      rw [insertEntry, if_neg (not_lt.mpr (le_of_lt hf)), if_neg (ne_of_gt hf), ih hrest]
      rfl

theorem increasing_sortEntries (es : List (String × α)) : Increasing (sortEntries es) :=
  List.foldlRecOn es _ .nil fun _ h _ _ => increasing_insertEntry h

theorem mem_of_mem_sortEntries {es : List (String × α)} {e : String × α}
    (h : e ∈ sortEntries es) : e ∈ es := by
  have hinsert : ∀ sorted : List (String × α), (∀ g ∈ sorted, g ∈ es) →
      ∀ f ∈ es, ∀ g ∈ insertEntry f.1 f.2 sorted, g ∈ es := by
    intro sorted hsorted f hf g hg
    rcases mem_insertEntry hg with rfl | hg
    · exact hf
    · exact hsorted g hg
  exact List.foldlRecOn es (motive := fun sorted => ∀ g ∈ sorted, g ∈ es) _
    (List.forall_mem_nil _) hinsert e h

theorem sortEntries_eq_self {es : List (String × α)} (h : Increasing es) : sortEntries es = es := by
  -- Each entry comes after those that are already in place.
  have happend : ∀ before, Increasing (before ++ es) →
      es.foldl (fun sorted e => insertEntry e.1 e.2 sorted) before = before ++ es := by
    clear h
    induction es with
    | nil =>
        intro before _
        rw [List.append_nil]
        rfl
    | cons e rest ih =>
        intro before hbefore
        have hlt : ∀ f ∈ before, f.1 < e.1 :=
          fun f hf => (List.pairwise_append.mp hbefore).2.2 f hf e List.mem_cons_self
        rw [List.append_cons] at hbefore ⊢
        rw [List.foldl_cons, insertEntry_eq_append hlt]
        exact ih _ hbefore
  exact happend [] h

/-! ## Values -/

theorem sortedItems_eq (js : List Json) : sortedItems js = js.map sorted := by
  induction js with
  | nil => rfl
  | cons j js ih => rw [sortedItems, ih, List.map_cons]

theorem sortedEntries_eq (es : List (String × Json)) :
    sortedEntries es = es.map fun e => (e.1, e.2.sorted) := by
  induction es with
  | nil => rfl
  | cons e es ih => rw [sortedEntries, ih, List.map_cons]

/-- Every object has increasing keys, and at most `d` brackets are open at once. -/
inductive Canonical : Nat → Json → Prop where
  | null {d : Nat} : Canonical d null
  | bool {d : Nat} (b : Bool) : Canonical d (bool b)
  | number {d : Nat} (n : Number) : Canonical d (number n)
  | string {d : Nat} (s : String) : Canonical d (string s)
  | array {d : Nat} {js : List Json} :
    (∀ j ∈ js, Canonical d j) → Canonical (d + 1) (array js)
  | object {d : Nat} {es : List (String × Json)} :
    Increasing es → (∀ e ∈ es, Canonical d e.2) → Canonical (d + 1) (object es)

variable {d : Nat}

theorem Canonical.sorted_eq {j : Json} (h : Canonical d j) : j.sorted = j := by
  induction h with
  | null | bool | number | string => rfl
  | @array _ js _ ih =>
      have hitems : js.map sorted = js := (List.map_congr_left ih).trans js.map_id
      rw [sorted, sortedItems_eq, hitems]
  | @object _ es hes _ ih =>
      have hentry : ∀ e ∈ es, (e.1, e.2.sorted) = e := fun e he => Prod.ext rfl (ih e he)
      have hentries : es.map (fun e => (e.1, e.2.sorted)) = es :=
        (List.map_congr_left hentry).trans es.map_id
      rw [sorted, sortedEntries_eq, hentries, sortEntries_eq_self hes]

theorem canonical_sorted_array {js : List Json} (h : ∀ j ∈ js, Canonical d j.sorted) :
    Canonical (d + 1) (array js).sorted := by
  rw [sorted, sortedItems_eq]
  exact .array (List.forall_mem_map.mpr h)

theorem canonical_sorted_object {es : List (String × Json)}
    (h : ∀ e ∈ es, Canonical d e.2.sorted) : Canonical (d + 1) (object es).sorted := by
  rw [sorted, sortedEntries_eq]
  refine .object (increasing_sortEntries _) fun e he => ?_
  obtain ⟨f, hf, rfl⟩ := List.mem_map.mp (mem_of_mem_sortEntries he)
  exact h f hf

end ServiceSchema.Json
