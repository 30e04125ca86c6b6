import ServiceSchema.Model.Format
import ServiceSchema.Proofs.Json.Records
/-!
# Rules are read back

A rule is buffered before it is looked at, so it is read back in two steps: its entries come back as
JSON values, and from these the fields of the rule come back, whether bounds are open or set.
-/

namespace ServiceSchema.Rule

open Json (Reader Reads Folds Canonical FloatsReadBack orNull)
open Json.Buffered (Decoder Sets)
open Text (quoted)

/-! ## Fields -/

theorem count_natural (n : UInt64) : Decoder.count (Json.natural n) = .ok n := by
  have hnonneg : ¬ (n.toNat : Int) < 0 := by omega
  change (if (n.toNat : Int) < 0 then .error (.wrongValue (.integer n.toNat) "u64")
    else .ok (UInt64.ofNat (n.toNat : Int).toNat) : Except Json.Fault UInt64) = _
  rw [if_neg hnonneg, Int.toNat_natCast, UInt64.ofNat_toNat]

theorem nullable_count_orNull (o : Option UInt64) :
    Decoder.count.nullable (orNull Json.natural o) = .ok o := by
  cases o with
  | none => rfl
  | some n =>
      change (Decoder.count (Json.natural n)).map some = _
      rw [count_natural]
      rfl

theorem nullable_number_orNull (o : Option Json.Number) :
    Decoder.number.nullable (orNull Json.number o) = .ok o := by
  cases o <;> rfl

theorem list_strings (ss : List String) :
    (Decoder.list Decoder.string) (Json.strings ss) = .ok ss := by
  change (ss.map Json.string).mapM Decoder.string = _
  induction ss with
  | nil => rfl
  | cons s ss ih =>
      rw [List.map_cons, List.mapM_cons, ih]
      rfl

theorem set_optional {σ α : Type} {name : String} {decode : Decoder α} {put : Option α → σ → σ}
    {j : Json} {o : Option α} (h : decode.nullable j = .ok o) (s : σ) :
    (Json.Buffered.Field.optional name decode put).set j s = .ok (put o s) := by
  change (decode.nullable j).map (put · s) = _
  rw [h]
  rfl

theorem set_required {σ α : Type} {name : String} {decode : Decoder α} {put : α → σ → σ}
    {j : Json} {a : α} (h : decode j = .ok a) (s : σ) :
    (Json.Buffered.Field.required name decode put).set j s = .ok (put a s) := by
  change (decode j).map (put · s) = _
  rw [h]
  rfl

theorem ofEntries_countFormat (kind : String) (b : CountBounds) :
    (countFormat kind).ofEntries b.toEntries = .ok b :=
  Json.Buffered.Format.ofEntries_of_sets (by change ["min", "max"].Nodup; decide)
    (.cons (set_optional (nullable_count_orNull b.min) _)
      (.cons (set_optional (nullable_count_orNull b.max) _) (.nil _)))

theorem ofEntries_rangeFormat (b : RangeBounds) : rangeFormat.ofEntries b.toEntries = .ok b :=
  Json.Buffered.Format.ofEntries_of_sets (by decide)
    (.cons (set_optional (nullable_number_orNull b.gt) _)
      (.cons (set_optional (nullable_number_orNull b.gte) _)
        (.cons (set_optional (nullable_number_orNull b.lt) _)
          (.cons (set_optional (nullable_number_orNull b.lte) _) (.nil _)))))

/-- A rule comes back from its kind and its other entries. -/
theorem ofFields_content (r : Rule) : ofFields (.entries r.content) r.kind = .ok r := by
  cases r with
  | length b | items b | keys b =>
      simp only [kind, content, ofFields, Fields.decode, ofEntries_countFormat]
      rfl
  | pattern p => rfl
  | «enum» values =>
      have hvalues : enumFormat.ofEntries [("values", Json.strings values)] = .ok values :=
        Json.Buffered.Format.ofEntries_of_sets (by decide)
          (.cons (set_required (list_strings values) _) (.nil _))
      simp only [kind, content, ofFields, Fields.decode, hvalues]
      rfl
  | range b =>
      simp only [kind, content, ofFields, Fields.decode, ofEntries_rangeFormat]
      rfl
  | multipleOf n => rfl

/-! ## Entries -/

variable {d : Nat}

theorem reads_readKind (k : Kind) : Reads readKind (quoted k.tag) k := by
  intro x hx
  have hfind : Kind.all.find? (·.tag == k.tag) = some k := by
    cases k <;> decide
  rw [readKind, Reader.bind_of_ok (Json.reads_stringAs k.tag _ x hx), hfind]
  rfl

theorem reads_kindEntry (k : Kind) :
    Reads (readEntry d "kind" (none, [])) (':' :: (Json.string k.tag).compact) (some k, []) :=
  ((reads_readKind k).map fun kind => (some kind, [])).colon

theorem reads_fieldEntry {key : String} (hkey : key ≠ "kind") {j : Json}
    (hj : Reads (Reader.value d) j.compact j) (kind? : Option Kind)
    (before : List (String × Json)) :
    Reads (readEntry d key (kind?, before)) (':' :: j.compact) (kind?, (key, j) :: before) := by
  have hentry : readEntry d key (kind?, before) =
      (do Reader.colon; return (kind?, (key, ← Reader.value d) :: before)) := by
    rw [readEntry, if_neg hkey]
  rw [hentry]
  exact (hj.map fun j => (kind?, (key, j) :: before)).colon

theorem folds_fieldEntries {es : List (String × Json)}
    (h : ∀ e ∈ es, e.1 ≠ "kind" ∧ Reads (Reader.value d) e.2.compact e.2) (kind? : Option Kind)
    (before : List (String × Json)) :
    Folds (readEntry d) es (kind?, before) (kind?, es.reverse ++ before) := by
  induction es generalizing before with
  | nil => exact .nil _
  | cons e es ih =>
      obtain ⟨⟨hkey, hj⟩, hes⟩ := List.forall_mem_cons.mp h
      rw [List.reverse_cons, List.append_assoc]
      exact .cons (reads_fieldEntry hkey hj kind? before) (ih hes _)

theorem canonical_orNull {α : Type} {write : α → Json} (h : ∀ a, Canonical d (write a))
    (o : Option α) : Canonical d (orNull write o) := by
  cases o with
  | none => exact .null
  | some a => exact h a

theorem canonical_of_mem_content {r : Rule} {e : String × Json} (he : e ∈ r.content) :
    Canonical (d + 1) e.2 := by
  have hnatural : ∀ o, Canonical (d + 1) (orNull Json.natural o) :=
    canonical_orNull fun n => .number (.ofNat n)
  have hnumber : ∀ o, Canonical (d + 1) (orNull Json.number o) := canonical_orNull .number
  cases r with
  | length b | items b | keys b =>
      simp only [content, CountBounds.toEntries, List.mem_cons, List.not_mem_nil, or_false] at he
      rcases he with rfl | rfl
      · exact hnatural b.min
      · exact hnatural b.max
  | pattern p =>
      obtain rfl := List.mem_singleton.mp he
      exact .string p
  | «enum» values =>
      obtain rfl := List.mem_singleton.mp he
      exact .array (List.forall_mem_map.mpr fun s _ => .string s)
  | range b =>
      simp only [content, RangeBounds.toEntries, List.mem_cons, List.not_mem_nil, or_false] at he
      rcases he with rfl | rfl | rfl | rfl
      · exact hnumber b.gt
      · exact hnumber b.gte
      · exact hnumber b.lt
      · exact hnumber b.lte
  | multipleOf n =>
      obtain rfl := List.mem_singleton.mp he
      exact .number n

theorem ne_kind_of_mem_content {r : Rule} {e : String × Json} (he : e ∈ r.content) :
    e.1 ≠ "kind" := by
  have hkeys : r.content.map Prod.fst ∈ [["min", "max"], ["pattern"], ["values"],
      ["gt", "gte", "lt", "lte"], ["value"]] := by
    cases r <;> simp [content, CountBounds.toEntries, RangeBounds.toEntries]
  have hnone : ∀ keys ∈ [["min", "max"], ["pattern"], ["values"], ["gt", "gte", "lt", "lte"],
      ["value"]], "kind" ∉ keys := by decide
  intro heq
  exact hnone _ hkeys (heq ▸ List.mem_map_of_mem he)

/-- A rule is read back where two more brackets may be opened. -/
theorem reads (r : Rule) (hf : r.toJson.FloatsReadBack) :
    Reads (Rule.read (d + 2)) r.toJson.compact r := by
  have hcontent : ∀ e ∈ r.content, e.1 ≠ "kind" ∧ Reads (Reader.value (d + 1)) e.2.compact e.2 := by
    intro e he
    exact ⟨ne_kind_of_mem_content he,
      (canonical_of_mem_content he).reads_value (hf.entry (List.mem_cons_of_mem _ he))⟩
  have hfolds := Folds.cons (reads_kindEntry (d := d + 1) r.kind)
    (folds_fieldEntries hcontent (some r.kind) [])
  rw [List.append_nil] at hfolds
  intro x _
  have hobject : fromObject (d + 1)
      (Json.compactEntries (("kind", .string r.kind.tag) :: r.content) ++ '\x7d' :: x) =
        .ok ((r.kind, .entries r.content), x) := by
    rw [fromObject, Reader.bind_of_ok (Json.foldEntries_compactEntries hfolds x)]
    change Except.ok ((r.kind, Fields.entries r.content.reverse.reverse), x) = _
    rw [List.reverse_reverse]
  rw [Rule.read]
  refine Reader.bind_eq_ok_iff.mpr ⟨(r.kind, .entries r.content), x, ?_, ?_⟩
  · rw [toJson, Reader.bind_of_ok (Json.head_object_append _ x)]
    exact hobject
  · dsimp only
    rw [ofFields_content]
    rfl

end ServiceSchema.Rule
