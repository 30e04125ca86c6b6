import Mathlib.Data.List.DropRight
import ServiceSchema.Json.Record
import ServiceSchema.Proofs.Json.Readers
import ServiceSchema.Proofs.Json.Sorted
/-!
# What reading guarantees

The readers of lists, objects and records give what their parts give.  Constants come out canonical,
and never null: a null is taken for an absent value.
-/

namespace ServiceSchema.Json

variable {α σ : Type} {d : Nat} {P : α → Prop}

/-! ## Lists -/

theorem yields_itemsFrom {r : Reader α} (hr : Yields r P) (fuel : Nat) (first : Bool) :
    Yields (Reader.itemsFrom r fuel first) fun as => ∀ a ∈ as, P a := by
  induction fuel generalizing first with
  | zero => exact yields_fail _
  | succ fuel ih =>
      refine (yields_true _).bind fun another _ => ?_
      split
      · exact hr.bind fun a ha => (ih false).map fun as has => List.forall_mem_cons.mpr ⟨ha, has⟩
      · exact (yields_true _).bind fun _ _ => yields_pure (List.forall_mem_nil _)

theorem yields_items {r : Reader α} (hr : Yields r P) :
    Yields (Reader.items r) fun as => ∀ a ∈ as, P a :=
  fun cs => yields_itemsFrom hr _ _ cs

theorem yields_list {item : Nested α} (h : Yields (item d) P) :
    Yields (Reader.list item (d + 1)) fun as => ∀ a ∈ as, P a := by
  refine (yields_true head).bind fun hd _ => ?_
  split
  · exact yields_items h
  · exact yields_fail _

/-! ## Objects -/

variable {entry : String → σ → Reader σ} {I : σ → Prop}

theorem yields_foldEntries (hentry : ∀ key s, I s → Yields (entry key s) I) {s : σ} (hs : I s) :
    Yields (Reader.foldEntries entry s) I := by
  have hfold : ∀ fuel first s, I s → Yields (Reader.foldEntriesFrom entry fuel first s) I := by
    intro fuel
    induction fuel with
    | zero => exact fun _ _ _ => yields_fail _
    | succ fuel ih =>
        intro first s hs
        refine (yields_true _).bind fun key? _ => ?_
        split
        · exact yields_pure hs
        · next key => exact (hentry key s hs).bind fun t ht => ih false t ht
  exact fun cs => hfold _ _ s hs cs

theorem yields_entries {value : Reader α} (hvalue : Yields value P) :
    Yields (Reader.entries value) fun es => ∀ e ∈ es, P e.2 := by
  have hentries : Yields (Reader.foldEntries
      (fun key read => do Reader.colon; return (key, ← value) :: read) [])
      fun es => ∀ e ∈ es, P e.2 := by
    refine yields_foldEntries (fun key read hread => ?_) (List.forall_mem_nil _)
    exact (yields_true _).bind fun _ _ =>
      hvalue.map fun a ha => List.forall_mem_cons.mpr ⟨ha, hread⟩
  refine hentries.bind fun reversed hreversed => (yields_true _).bind fun _ _ => yields_pure ?_
  exact fun e he => hreversed e (List.mem_reverse.mp he)

theorem yields_keyed (value : Nested α) :
    Yields (Reader.keyed value (d + 1)) Increasing := by
  refine (yields_true head).bind fun hd _ => ?_
  split
  · exact (yields_true (Reader.entries (value d))).map fun es _ => increasing_sortEntries es
  · exact yields_fail _

/-! ## Values -/

/-- A scalar is canonical at every depth, and null only where the text goes on with its letter. -/
def Head.Sound (next : Option Char) : Head → Prop
  | .scalar j => (∀ d, Canonical d j) ∧ (j = null → next = some 'n')
  | .list | .object => True

theorem sound_of_head {cs rest : List Char} {hd : Head} (h : head cs = .ok (hd, rest)) :
    hd.Sound (cs.dropWhile isBlank).head? := by
  obtain ⟨c, mid, hpeek, hread⟩ := Reader.bind_eq_ok_iff.mp h
  cases hpeek
  refine (?_ : Yields _ (Head.Sound (cs.dropWhile isBlank).head?)) _ _ _ hread
  split
  · exact yields_fail _
  · next hn =>
      exact (yields_true _).bind fun _ _ => (yields_true _).bind fun _ _ =>
        yields_pure ⟨fun _ => .null, fun _ => hn⟩
  · exact (yields_true _).bind fun _ _ => (yields_true _).bind fun _ _ =>
      yields_pure ⟨fun _ => .bool true, Json.noConfusion⟩
  · exact (yields_true _).bind fun _ _ => (yields_true _).bind fun _ _ =>
      yields_pure ⟨fun _ => .bool false, Json.noConfusion⟩
  · exact (yields_true _).bind fun _ _ => (yields_true _).map fun s _ =>
      ⟨fun _ => .string s, Json.noConfusion⟩
  · exact (yields_true _).bind fun _ _ => yields_pure trivial
  · exact (yields_true _).bind fun _ _ => yields_pure trivial
  · exact (yields_true _).bind fun _ _ => (yields_true _).map fun n _ =>
      ⟨fun _ => .number n, Json.noConfusion⟩
  · split
    · exact (yields_true _).map fun n _ => ⟨fun _ => .number n, Json.noConfusion⟩
    · exact yields_fail _

/-- Sorting what was read gives a canonical value. -/
theorem yields_value (d : Nat) : Yields (Reader.value d) fun j => Canonical d j.sorted := by
  have hscalar : ∀ d, Yields head fun hd => ∀ j, hd = .scalar j → Canonical d j.sorted := by
    intro d cs hd rest h j hj
    subst hj
    have hcanonical := (sound_of_head h).1 d
    rwa [hcanonical.sorted_eq]
  induction d with
  | zero =>
      refine (hscalar 0).bind fun hd hcanonical => ?_
      split
      · exact yields_pure (hcanonical _ rfl)
      · exact yields_fail _
  | succ d ih =>
      refine (hscalar (d + 1)).bind fun hd hcanonical => ?_
      split
      · exact yields_pure (hcanonical _ rfl)
      · exact (yields_items ih).map fun js hjs => canonical_sorted_array hjs
      · exact (yields_entries ih).map fun es hes => canonical_sorted_object hes

theorem yields_constant (d : Nat) : Yields (Reader.constant d) (Canonical d) :=
  (yields_value d).map fun _ hj => hj

theorem yields_nullable {r : Reader α} (hr : Yields r P) :
    Yields (Reader.nullable r) fun o => ∀ a ∈ o, P a := by
  refine (yields_true _).bind fun c _ => ?_
  split
  · exact (yields_true _).bind fun _ _ => (yields_true _).bind fun _ _ =>
      yields_pure fun _ ha => nomatch ha
  · exact hr.map fun a ha b hb => Option.some.inj hb ▸ ha

theorem eq_null_of_sorted {j : Json} (h : j.sorted = null) : j = null := by
  cases j with
  | null => rfl
  | bool | number | string | array | object => cases h

theorem head?_of_value_null {cs rest : List Char} (h : Reader.value d cs = .ok (null, rest)) :
    (cs.dropWhile isBlank).head? = some 'n' := by
  cases d with
  | zero =>
      obtain ⟨hd, mid, hhead, hread⟩ := Reader.bind_eq_ok_iff.mp h
      cases hd with
      | scalar j =>
          cases hread
          exact (sound_of_head hhead).2 rfl
      | list | object => cases hread
  | succ d =>
      obtain ⟨hd, mid, hhead, hread⟩ := Reader.bind_eq_ok_iff.mp h
      cases hd with
      | scalar j =>
          cases hread
          exact (sound_of_head hhead).2 rfl
      | list | object =>
          obtain ⟨_, _, _, heq⟩ := Reader.bind_eq_ok_iff.mp hread
          cases heq

/-- A constant that may be absent is never null. -/
theorem yields_nullable_constant (d : Nat) :
    Yields (Reader.nullable (Reader.constant d)) fun o => ∀ j ∈ o, Canonical d j ∧ j ≠ null := by
  intro cs o rest h j hj
  refine ⟨yields_nullable (yields_constant d) cs o rest h j hj, ?_⟩
  obtain ⟨c, mid, hpeek, hread⟩ := Reader.bind_eq_ok_iff.mp h
  cases hpeek
  by_cases hn : (cs.dropWhile isBlank).head? = some 'n'
  · rw [hn] at hread
    have hnone : Yields (do pass; letters "ull".toList; return none : Reader (Option Json))
        (· = none) :=
      (yields_true _).bind fun _ _ => (yields_true _).bind fun _ _ => yields_pure rfl
    rw [hnone _ _ _ hread] at hj
    cases hj
  · have hsome : (do return some (← Reader.constant d) : Reader (Option Json))
        (cs.dropWhile isBlank) = .ok (o, rest) := by
      refine Eq.trans (congrFun ?_ _) hread
      split
      · next heq => exact absurd heq hn
      · rfl
    obtain ⟨k, _, hconstant, hk⟩ := Reader.bind_eq_ok_iff.mp hsome
    cases hk
    obtain rfl := Option.some.inj hj
    obtain ⟨i, _, hvalue, hi⟩ := Reader.bind_eq_ok_iff.mp hconstant
    cases hi
    intro hnull
    rw [eq_null_of_sorted hnull] at hvalue
    have hhead := head?_of_value_null hvalue
    rw [List.dropWhile_idempotent] at hhead
    exact hn hhead

/-! ## Records -/

namespace Format

variable {f : Format σ}

theorem yields_entry (hfield : ∀ field ∈ f.fields, ∀ s, I s → Yields (field.read d s) I)
    (key : String) (s : σ × List String) (hs : I s.1) :
    Yields (f.entry d key s) fun t => I t.1 := by
  unfold entry
  split
  · exact (yields_true _).bind fun _ _ => (yields_true _).bind fun _ _ => yields_pure hs
  · next field hfound =>
      split
      · exact yields_fail _
      · exact (yields_true _).bind fun _ _ =>
          (hfield field (List.mem_of_find?_eq_some hfound) s.1 hs).map fun _ ht => ht

theorem yields_elements (index : Nat) {fields : List (Field σ)}
    (hfield : ∀ field ∈ fields, ∀ s, I s → Yields (field.read d s) I) {s : σ} (hs : I s) :
    Yields (f.elements d index fields s) I := by
  induction fields generalizing index s with
  | nil => exact yields_pure hs
  | cons field fields ih =>
      obtain ⟨hread, hfields⟩ := List.forall_mem_cons.mp hfield
      refine (yields_true _).bind fun another _ => ?_
      split
      · exact (hread s hs).bind fun t ht => ih (index + 1) hfields ht
      split
      · exact yields_fail _
      · exact ih (index + 1) hfields hs

/-- What holds of the blank record and is preserved by every field holds of what is read, from an
object or from an array. -/
theorem yields_read (hblank : I f.blank)
    (hfield : ∀ field ∈ f.fields, ∀ s, I s → Yields (field.read d s) I) :
    Yields (f.read (d + 1)) I := by
  have hobject : Yields (f.fromObject d) I := by
    refine (yields_foldEntries (I := fun s => I s.1) (yields_entry hfield) hblank).bind
      fun s hs => ?_
    dsimp only
    split
    · exact yields_fail _
    · exact (yields_true _).bind fun _ _ => yields_pure hs
  have harray : Yields (f.fromArray d) I :=
    (yields_elements 0 hfield hblank).bind fun s hs =>
      (yields_true _).bind fun _ _ => yields_pure hs
  refine (yields_true head).bind fun hd _ => ?_
  split
  · exact harray
  · exact hobject
  · exact yields_fail _

end Format

end ServiceSchema.Json
