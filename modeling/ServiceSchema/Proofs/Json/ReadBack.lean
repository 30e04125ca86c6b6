import ServiceSchema.Json.Record
import ServiceSchema.Proofs.Json.Numerals
import ServiceSchema.Proofs.Json.Sorted
/-!
# Compact texts are read back

Every reader for a kind of value gives back what the compact text of this kind was written from:
strings, lists, tables, JSON values and records.  A record is written with its fields in the order
of its format, so that the entries can be followed along the format.
-/

namespace ServiceSchema.Json

open Decimal (Binary64)
open Text (quoted intercalate_cons_eq_flatMap)

variable {α σ : Type}

/-! ## Floating-point numbers in a value -/

mutual

def floats : Json → List Binary64
  | number (.float x) => [x]
  | array items => floatsOfItems items
  | object entries => floatsOfEntries entries
  | _ => []

def floatsOfItems : List Json → List Binary64
  | [] => []
  | j :: js => j.floats ++ floatsOfItems js

def floatsOfEntries : List (String × Json) → List Binary64
  | [] => []
  | (_, j) :: rest => j.floats ++ floatsOfEntries rest

end

theorem mem_floatsOfItems {j : Json} {js : List Json} {x : Binary64} (hj : j ∈ js)
    (hx : x ∈ j.floats) : x ∈ floatsOfItems js := by
  induction js with
  | nil => cases hj
  | cons k ks ih =>
      rw [floatsOfItems]
      rcases List.mem_cons.mp hj with rfl | hj
      · exact List.mem_append_left _ hx
      · exact List.mem_append_right _ (ih hj)

theorem mem_floatsOfEntries {e : String × Json} {es : List (String × Json)} {x : Binary64}
    (he : e ∈ es) (hx : x ∈ e.2.floats) : x ∈ floatsOfEntries es := by
  induction es with
  | nil => cases he
  | cons f fs ih =>
      rw [floatsOfEntries]
      rcases List.mem_cons.mp he with rfl | he
      · exact List.mem_append_left _ hx
      · exact List.mem_append_right _ (ih he)

def FloatsReadBack (j : Json) : Prop := ∀ x ∈ j.floats, (Number.float x).ReadsBack

instance (j : Json) : Decidable j.FloatsReadBack :=
  inferInstanceAs (Decidable (∀ x ∈ j.floats, _))

theorem FloatsReadBack.item {j : Json} {js : List Json} (h : (array js).FloatsReadBack)
    (hj : j ∈ js) : j.FloatsReadBack :=
  fun x hx => h x (mem_floatsOfItems hj hx)

theorem FloatsReadBack.entry {e : String × Json} {es : List (String × Json)}
    (h : (object es).FloatsReadBack) (he : e ∈ es) : e.2.FloatsReadBack :=
  fun x hx => h x (mem_floatsOfEntries he hx)

theorem FloatsReadBack.readsBack {n : Number} (h : (number n).FloatsReadBack) : n.ReadsBack := by
  cases n with
  | integer i hi => exact readsBack_integer i hi
  | float x => exact h x (List.mem_singleton_self x)

/-! ## Scalars -/

theorem head_quote (cs : List Char) :
    head ('"' :: cs) = (stringRest cs).map fun r => (.scalar (.string r.1), r.2) :=
  Reader.map_eq (fun s => Head.scalar (.string s)) stringRest cs

theorem stringRest_append (s : String) (x : List Char) :
    stringRest (s.toList.flatMap Text.escaped ++ ['"'] ++ x) = .ok (s, x) := by
  rw [List.append_assoc]
  exact Text.stringRest_quoted s x

theorem reads_head {j : Json} (hj : Canonical 0 j) (hf : j.FloatsReadBack) :
    Reads head j.compact (.scalar j) := by
  cases hj with
  | null => exact fun _ _ => rfl
  | bool b => cases b <;> exact fun _ _ => rfl
  | number n => exact hf.readsBack.reads_head
  | string s =>
      intro x _
      rw [compact, quoted, List.cons_append, head_quote, stringRest_append]
      rfl

theorem reads_stringAs (s wanted : String) : Reads (Reader.stringAs wanted) (quoted s) s := by
  have hs : Reads head (quoted s) (.scalar (.string s)) :=
    reads_head (.string s) (List.forall_mem_nil _)
  intro x hx
  rw [Reader.stringAs, Reader.bind_of_ok (hs x hx)]
  rfl

theorem reads_string (s : String) : Reads Reader.string (quoted s) s :=
  reads_stringAs s _

theorem reads_bool (b : Bool) : Reads Reader.bool (boolText b) b := by
  cases b <;> exact fun _ _ => rfl

/-! ## The first character of a value -/

theorem exists_peek_compact (j : Json) (x : List Char) :
    ∃ c, kindOf? c = some j.kind ∧ peek (j.compact ++ x) = .ok (some c, j.compact ++ x) := by
  have hkind := kindOf?_head?_compact j x
  cases htext : j.compact ++ x with
  | nil => simp [htext] at hkind
  | cons c cs =>
      have hc : kindOf? c = some j.kind := by simpa [htext] using hkind
      exact ⟨c, hc, peek_cons (isBlank_of_kindOf? hc) cs⟩

theorem kind_ne_null {j : Json} (h : j ≠ null) : j.kind ≠ .null := by
  cases j with
  | null => exact absurd rfl h
  | _ => exact Kind.noConfusion

theorem reads_nullable_null (r : Reader α) : Reads (Reader.nullable r) null.compact none :=
  fun _ _ => rfl

theorem reads_nullable {r : Reader α} {j : Json} {a : α} (h : Reads r j.compact a)
    (hj : j.kind ≠ .null) : Reads (Reader.nullable r) j.compact (some a) := by
  intro x hx
  obtain ⟨c, hkind, hpeek⟩ := exists_peek_compact j x
  have hc : c ≠ 'n' := by
    rintro rfl
    exact hj (Option.some.inj hkind).symm
  rw [Reader.nullable, Reader.bind_of_ok hpeek]
  refine Eq.trans (congrFun ?_ _) ((h.map some) x hx)
  split
  · next heq => exact absurd (Option.some.inj heq) hc
  · rfl

/-! ## Lists -/

theorem exists_peek_item (j : Json) (x : List Char) :
    ∃ c, c ≠ ']' ∧ peek (j.compact ++ x) = .ok (some c, j.compact ++ x) := by
  obtain ⟨c, hkind, hpeek⟩ := exists_peek_compact j x
  refine ⟨c, ?_, hpeek⟩
  rintro rfl
  cases hkind

theorem anotherItem_true (j : Json) (x : List Char) :
    Reader.anotherItem true (j.compact ++ x) = .ok (true, j.compact ++ x) := by
  obtain ⟨c, hc, hpeek⟩ := exists_peek_item j x
  rw [Reader.anotherItem, Reader.bind_of_ok hpeek]
  dsimp only
  rw [if_neg hc, if_pos rfl]
  rfl

theorem anotherItem_comma (j : Json) (x : List Char) :
    Reader.anotherItem false (',' :: (j.compact ++ x)) = .ok (true, j.compact ++ x) := by
  obtain ⟨c, hc, hpeek⟩ := exists_peek_item j x
  have hcomma : peek (',' :: (j.compact ++ x)) = .ok (some ',', ',' :: (j.compact ++ x)) :=
    peek_cons rfl _
  have hpass : pass (',' :: (j.compact ++ x)) = .ok ((), j.compact ++ x) := rfl
  rw [Reader.anotherItem, Reader.bind_of_ok hcomma]
  dsimp only
  rw [if_neg (by decide), if_neg Bool.false_ne_true, if_pos rfl, Reader.bind_of_ok hpass,
    Reader.bind_of_ok hpeek]
  dsimp only
  rw [if_neg hc]
  rfl

/-- Each value is read as the element at its place. -/
def ReadsAll (r : Reader α) : List Json → List α → Prop :=
  List.Forall₂ fun j a => Reads r j.compact a

theorem ended_items (js : List Json) (x : List Char) :
    Ended (js.flatMap (fun j => ',' :: j.compact) ++ ']' :: x) := by
  cases js with
  | nil => exact ended_cons (by simp) _
  | cons j js => exact ended_cons (by simp) _

theorem itemsFrom_flatMap {r : Reader α} {js : List Json} {as : List α} (h : ReadsAll r js as)
    (x : List Char) {fuel : Nat} (hfuel : js.length < fuel) :
    Reader.itemsFrom r fuel false (js.flatMap (fun j => ',' :: j.compact) ++ ']' :: x) =
      .ok (as, x) := by
  induction h generalizing fuel with
  | nil =>
      obtain ⟨fuel, rfl⟩ := Nat.exists_eq_succ_of_ne_zero (Nat.ne_of_gt hfuel)
      rfl
  | @cons j a js as hj _ ih =>
      obtain ⟨fuel, rfl⟩ := Nat.exists_eq_succ_of_ne_zero (Nat.ne_of_gt (Nat.zero_lt_of_lt hfuel))
      rw [List.flatMap_cons, List.append_assoc, List.cons_append, Reader.itemsFrom,
        Reader.bind_of_ok (anotherItem_comma j _), if_pos rfl,
        Reader.bind_of_ok (hj _ (ended_items js x)),
        Reader.bind_of_ok (ih (Nat.lt_of_succ_lt_succ hfuel))]
      rfl

theorem length_le_length_flatMap_comma {β : Type} (bs : List β) (f : β → List Char) :
    bs.length ≤ (bs.flatMap fun b => ',' :: f b).length := by
  induction bs with
  | nil => exact Nat.le_refl 0
  | cons b bs ih =>
      rw [List.flatMap_cons, List.length_append, List.length_cons, List.length_cons]
      omega

theorem items_compactItems {r : Reader α} {js : List Json} {as : List α} (h : ReadsAll r js as)
    (x : List Char) : Reader.items r (compactItems js ++ ']' :: x) = .ok (as, x) := by
  rw [compactItems_eq, Reader.items]
  cases h with
  | nil => rfl
  | @cons j a js as hj hjs =>
      have htext : [','].intercalate ((j :: js).map compact) ++ ']' :: x =
          j.compact ++ (js.flatMap (fun j => ',' :: j.compact) ++ ']' :: x) := by
        rw [List.map_cons, intercalate_cons_eq_flatMap, List.flatMap_map, List.append_assoc]
        rfl
      have hfuel := length_le_length_flatMap_comma js compact
      rw [htext, Reader.itemsFrom, Reader.bind_of_ok (anotherItem_true j _), if_pos rfl,
        Reader.bind_of_ok (hj _ (ended_items js x)), Reader.bind_of_ok (itemsFrom_flatMap hjs x ?_)]
      · rfl
      · simp only [List.length_append, List.length_cons]
        omega

theorem head_array_append (js : List Json) (x : List Char) :
    head ((array js).compact ++ x) = .ok (.list, compactItems js ++ ']' :: x) := by
  rw [compact, List.cons_append, List.append_assoc]
  rfl

theorem reads_list {item : Nested α} {d : Nat} {js : List Json} {as : List α}
    (h : ReadsAll (item d) js as) : Reads (Reader.list item (d + 1)) (array js).compact as := by
  intro x _
  rw [Reader.list, Reader.bind_of_ok (head_array_append js x)]
  exact items_compactItems h x

theorem reads_list_map {item : Nested α} {d : Nat} {as : List α} {write : α → Json}
    (h : ∀ a ∈ as, Reads (item d) (write a).compact a) :
    Reads (Reader.list item (d + 1)) (array (as.map write)).compact as := by
  refine reads_list ?_
  induction as with
  | nil => exact .nil
  | cons a as ih =>
      obtain ⟨ha, has⟩ := List.forall_mem_cons.mp h
      exact .cons ha (ih has)

/-! ## Objects -/

inductive Folds (entry : String → σ → Reader σ) : List (String × Json) → σ → σ → Prop where
  | nil (s : σ) : Folds entry [] s s
  | cons {key : String} {j : Json} {es : List (String × Json)} {s t u : σ} :
    Reads (entry key s) (':' :: j.compact) t → Folds entry es t u → Folds entry ((key, j) :: es) s u

theorem some_stringRest_append (s : String) (x : List Char) :
    (do return some (← stringRest) : Reader (Option String))
      (s.toList.flatMap Text.escaped ++ ['"'] ++ x) = .ok (some s, x) := by
  rw [Reader.map_eq, stringRest_append]
  rfl

theorem anotherKey_true (key : String) (x : List Char) :
    Reader.anotherKey true (quoted key ++ x) = .ok (some key, x) :=
  some_stringRest_append key x

theorem anotherKey_comma (key : String) (x : List Char) :
    Reader.anotherKey false (',' :: (quoted key ++ x)) = .ok (some key, x) :=
  some_stringRest_append key x

theorem ended_entries (es : List (String × Json)) (x : List Char) :
    Ended (es.flatMap (fun e => ',' :: entryText e) ++ '\x7d' :: x) := by
  cases es with
  | nil => exact ended_cons (by simp) _
  | cons e es => exact ended_cons (by simp) _

theorem foldEntriesFrom_flatMap {entry : String → σ → Reader σ} {es : List (String × Json)}
    {s t : σ} (h : Folds entry es s t) (x : List Char) {fuel : Nat} (hfuel : es.length < fuel) :
    Reader.foldEntriesFrom entry fuel false s
      (es.flatMap (fun e => ',' :: entryText e) ++ '\x7d' :: x) = .ok (t, '\x7d' :: x) := by
  induction h generalizing fuel with
  | nil =>
      obtain ⟨fuel, rfl⟩ := Nat.exists_eq_succ_of_ne_zero (Nat.ne_of_gt hfuel)
      rfl
  | @cons key j es s t u hentry _ ih =>
      obtain ⟨fuel, rfl⟩ := Nat.exists_eq_succ_of_ne_zero (Nat.ne_of_gt (Nat.zero_lt_of_lt hfuel))
      rw [List.flatMap_cons, List.append_assoc, List.cons_append, entryText, List.append_assoc,
        Reader.foldEntriesFrom, Reader.bind_of_ok (anotherKey_comma key _)]
      change (entry key s >>= _) _ = _
      rw [Reader.bind_of_ok (hentry _ (ended_entries es x))]
      exact ih (Nat.lt_of_succ_lt_succ hfuel)

theorem foldEntries_compactEntries {entry : String → σ → Reader σ} {es : List (String × Json)}
    {s t : σ} (h : Folds entry es s t) (x : List Char) :
    Reader.foldEntries entry s (compactEntries es ++ '\x7d' :: x) = .ok (t, '\x7d' :: x) := by
  rw [compactEntries_eq, Reader.foldEntries]
  cases h with
  | nil => rfl
  | @cons key j es s t u hentry hes =>
      have htext : [','].intercalate (((key, j) :: es).map entryText) ++ '\x7d' :: x =
          quoted key ++ (':' :: j.compact ++
            (es.flatMap (fun e => ',' :: entryText e) ++ '\x7d' :: x)) := by
        rw [List.map_cons, intercalate_cons_eq_flatMap, List.flatMap_map, entryText,
          List.append_assoc, List.append_assoc]
        rfl
      have hfuel := length_le_length_flatMap_comma es entryText
      rw [htext, Reader.foldEntriesFrom, Reader.bind_of_ok (anotherKey_true key _)]
      change (entry key s >>= _) _ = _
      rw [Reader.bind_of_ok (hentry _ (ended_entries es x))]
      refine foldEntriesFrom_flatMap hes x ?_
      simp only [List.length_append, List.length_cons]
      omega

theorem Reads.colon {r : Reader α} {text : List Char} {a : α} (h : Reads r text a) :
    Reads (do Reader.colon; r) (':' :: text) a :=
  fun x hx => h x hx

theorem entries_compactEntries {value : Reader α} {es : List (String × Json)}
    {fs : List (String × α)}
    (h : List.Forall₂ (fun e f => e.1 = f.1 ∧ Reads value e.2.compact f.2) es fs) (x : List Char) :
    Reader.entries value (compactEntries es ++ '\x7d' :: x) = .ok (fs, x) := by
  have hfolds : ∀ before, Folds (fun key read => do Reader.colon; return (key, ← value) :: read)
      es before (fs.reverse ++ before) := by
    induction h with
    | nil => exact fun before => .nil before
    | @cons e f es fs hef _ ih =>
        intro before
        obtain ⟨key, a⟩ := f
        obtain ⟨rfl, hvalue⟩ := hef
        rw [List.reverse_cons, List.append_assoc]
        exact .cons (hvalue.map fun a => (e.1, a) :: before).colon (ih _)
  rw [Reader.entries, Reader.bind_of_ok (foldEntries_compactEntries (hfolds []) x),
    List.append_nil, List.reverse_reverse]
  rfl

theorem head_object_append (es : List (String × Json)) (x : List Char) :
    head ((object es).compact ++ x) = .ok (.object, compactEntries es ++ '\x7d' :: x) := by
  rw [compact, List.cons_append, List.append_assoc]
  rfl

theorem reads_keyed {value : Nested α} {d : Nat} {fs : List (String × α)} {write : α → Json}
    (h : ∀ f ∈ fs, Reads (value d) (write f.2).compact f.2) (hfs : Increasing fs) :
    Reads (Reader.keyed value (d + 1)) (object (fs.map fun f => (f.1, write f.2))).compact fs := by
  have hall : List.Forall₂ (fun e f => e.1 = f.1 ∧ Reads (value d) e.2.compact f.2)
      (fs.map fun f => (f.1, write f.2)) fs := by
    clear hfs
    induction fs with
    | nil => exact .nil
    | cons f fs ih =>
        obtain ⟨hf, hrest⟩ := List.forall_mem_cons.mp h
        exact .cons ⟨rfl, hf⟩ (ih hrest)
  intro x _
  rw [Reader.keyed, Reader.bind_of_ok (head_object_append _ x)]
  change (Reader.entries (value d) >>= _) _ = _
  rw [Reader.bind_of_ok (entries_compactEntries hall x), sortEntries_eq_self hfs]
  rfl

/-! ## Values -/

theorem reads_value_of_head {text : List Char} {j : Json} (h : Reads head text (.scalar j))
    (d : Nat) : Reads (Reader.value d) text j := by
  intro x hx
  cases d with
  | zero =>
      rw [Reader.value, Reader.bind_of_ok (h x hx)]
      rfl
  | succ d =>
      rw [Reader.value, Reader.bind_of_ok (h x hx)]
      rfl

/-- A canonical value is read back at the depth to which it nests. -/
theorem Canonical.reads_value {d : Nat} {j : Json} (hj : Canonical d j) (hf : j.FloatsReadBack) :
    Reads (Reader.value d) j.compact j := by
  induction hj with
  | null => exact reads_value_of_head (reads_head .null hf) _
  | bool b => exact reads_value_of_head (reads_head (.bool b) hf) _
  | number n => exact reads_value_of_head (reads_head (.number n) hf) _
  | string s => exact reads_value_of_head (reads_head (.string s) hf) _
  | @array d js _ ih =>
      have hitems : ReadsAll (Reader.value d) js js :=
        List.forall₂_same.mpr fun j hj => ih j hj (hf.item hj)
      intro x _
      rw [Reader.value, Reader.bind_of_ok (head_array_append js x)]
      change (do return Json.array (← Reader.items (Reader.value d)) : Reader Json) _ = _
      rw [Reader.map_eq, items_compactItems hitems x]
      rfl
  | @object d es _ _ ih =>
      have hentries : List.Forall₂
          (fun e f => e.1 = f.1 ∧ Reads (Reader.value d) e.2.compact f.2) es es :=
        List.forall₂_same.mpr fun e he => ⟨rfl, ih e he (hf.entry he)⟩
      intro x _
      rw [Reader.value, Reader.bind_of_ok (head_object_append es x)]
      change (do return Json.object (← Reader.entries (Reader.value d)) : Reader Json) _ = _
      rw [Reader.map_eq, entries_compactEntries hentries x]
      rfl

theorem Canonical.reads_constant {d : Nat} {j : Json} (hj : Canonical d j)
    (hf : j.FloatsReadBack) : Reads (Reader.constant d) j.compact j := by
  have hread := (hj.reads_value hf).map sorted
  rwa [hj.sorted_eq] at hread

/-- A constant that may be absent is read back as one that is there. -/
theorem Canonical.reads_nullable_constant {d : Nat} {j : Json} (hj : Canonical d j)
    (hnull : j ≠ Json.null) (hf : j.FloatsReadBack) :
    Reads (Reader.nullable (Reader.constant d)) j.compact (some j) :=
  reads_nullable (hj.reads_constant hf) (kind_ne_null hnull)

end ServiceSchema.Json
