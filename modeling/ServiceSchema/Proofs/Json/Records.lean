import ServiceSchema.Json.Record
import ServiceSchema.Model.Written
import ServiceSchema.Proofs.Json.ReadBack
import ServiceSchema.Proofs.Names.Sorting
/-!
# Records are read back

A record is written with its fields in the order of its format, without some of those that may be
absent.  The reader of the format takes the blank record through the same fields to the record that
was written.  The same goes for records from buffered values, which are written with all fields.
-/

namespace ServiceSchema.Json

variable {α σ : Type} {d : Nat}

/-- The entries fill the fields one after another and take one record to another; a field that an
object may lack can have no entry. -/
inductive Fills (d : Nat) : List (Field σ) → List (String × Json) → σ → σ → Prop where
  | nil (s : σ) : Fills d [] [] s s
  | written {field : Field σ} {fields : List (Field σ)} {j : Json} {es : List (String × Json)}
    {s t u : σ} : Reads (field.read d s) j.compact t → Fills d fields es t u →
      Fills d (field :: fields) ((field.name, j) :: es) s u
  | absent {field : Field σ} {fields : List (Field σ)} {es : List (String × Json)} {s u : σ} :
    field.inObject = false → Fills d fields es s u → Fills d (field :: fields) es s u

theorem Fills.of_append_nil {fields : List (Field σ)} {es : List (String × Json)} {s u : σ}
    (h : Fills d fields (es ++ []) s u) : Fills d fields es s u := by
  rwa [List.append_nil] at h

/-! ## Absent values -/

section Absent

variable {name : String} {fields : List (Field σ)} {es : List (String × Json)} {s u : σ}
  {write : α → Json}

theorem Fills.optionalEntry {r : Nested (Option α)} {set : Option α → σ → σ} {o : Option α}
    (hread : ∀ a ∈ o, Reads (r d) (write a).compact (some a)) (hblank : set none s = s)
    (h : Fills d fields es (set o s) u) :
    Fills d (.optional name r set :: fields) ( entry? name write o ++ es) s u := by
  cases o with
  | none =>
      rw [hblank] at h
      exact .absent rfl h
  | some a => exact .written ((hread a rfl).map (set · s)) h

theorem Fills.entryUnlessEmpty {r : Nested (List α)} {set : List α → σ → σ} {as : List α}
    (hread : Reads (r d) (array (as.map write)).compact as) (hblank : set [] s = s)
    (h : Fills d fields es (set as s) u) :
    Fills d (.optional name r set :: fields) (Json.entryUnlessEmpty name write as ++ es) s u := by
  cases as with
  | nil =>
      rw [hblank] at h
      exact .absent rfl h
  | cons a as => exact .written (hread.map (set · s)) h

theorem reads_nullable_orNull {r : Reader α} {o : Option α}
    (hread : ∀ a ∈ o, Reads r (write a).compact a) (hkind : ∀ a ∈ o, (write a).kind ≠ .null) :
    Reads (Reader.nullable r) (orNull write o).compact o := by
  cases o with
  | none => exact reads_nullable_null r
  | some a => exact reads_nullable (hread a rfl) (hkind a rfl)

theorem mem_optionalEntry {o : Option α} {a : α} (ha : a ∈ o) :
    (name, write a) ∈ entry? name write o := by
  rw [Option.mem_def.mp ha]
  exact List.mem_singleton_self _

theorem mem_entryUnlessEmpty {as : List α} {a : α} (ha : a ∈ as) :
    (name, array (as.map write)) ∈ Json.entryUnlessEmpty name write as := by
  cases as with
  | nil => cases ha
  | cons b bs => exact List.mem_singleton_self _

end Absent

/-! ## Formats -/

namespace Format

variable {f : Format σ}

theorem reads_entry (hf : (f.fields.map Field.name).Nodup) {field : Field σ}
    (hfield : field ∈ f.fields) {j : Json} {s t : σ} {seen : List String}
    (hseen : field.name ∉ seen) (h : Reads (field.read d s) j.compact t) :
    Reads (f.entry d field.name (s, seen)) (':' :: j.compact) (t, field.name :: seen) := by
  have hcontains : seen.contains field.name = false := by simpa using hseen
  have hentry : f.entry d field.name (s, seen) =
      (do Reader.colon; return (← field.read d s, field.name :: seen)) := by
    unfold entry
    rw [Names.find?_name_eq_some hf hfield]
    simp only [hcontains, Bool.false_eq_true, if_false]
  rw [hentry]
  exact (h.map (·, field.name :: seen)).colon

/-- The fold over the entries follows the fields; the fields that are needed have been read. -/
theorem folds_of_fills (hf : (f.fields.map Field.name).Nodup) {before fields : List (Field σ)}
    {es : List (String × Json)} {s u : σ} {seen : List String} (h : Fills d fields es s u)
    (hsplit : f.fields = before ++ fields) (hseen : ∀ n ∈ seen, n ∈ before.map Field.name)
    (hbefore : ∀ field ∈ before, field.inObject = true → field.name ∈ seen) :
    ∃ seen', Folds (f.entry d) es (s, seen) (u, seen') ∧
      ∀ field ∈ f.fields, field.inObject = true → field.name ∈ seen' := by
  induction h generalizing before seen with
  | nil s =>
      rw [List.append_nil] at hsplit
      exact ⟨seen, .nil _, hsplit ▸ hbefore⟩
  | @written field fields j es s t u hread _ ih =>
      have hnew : field.name ∉ before.map Field.name := Names.name_notMem_of_nodup (hsplit ▸ hf)
      have hfield : field ∈ f.fields := by
        rw [hsplit]
        exact List.mem_append_right _ List.mem_cons_self
      have hsplit' : f.fields = (before ++ [field]) ++ fields := by rw [hsplit, List.append_cons]
      have hseen' : ∀ n ∈ field.name :: seen, n ∈ (before ++ [field]).map Field.name := by
        rw [List.map_append]
        exact List.forall_mem_cons.mpr ⟨List.mem_append_right _ List.mem_cons_self,
          fun n hn => List.mem_append_left _ (hseen n hn)⟩
      have hbefore' : ∀ g ∈ before ++ [field], g.inObject = true → g.name ∈ field.name :: seen := by
        intro g hg hin
        rcases List.mem_append.mp hg with hg | hg
        · exact List.mem_cons_of_mem _ (hbefore g hg hin)
        · rw [List.mem_singleton.mp hg]
          exact List.mem_cons_self
      obtain ⟨seen', hfolds, hneeded⟩ := ih hsplit' hseen' hbefore'
      have hentry := reads_entry hf hfield (fun hin => hnew (hseen _ hin)) hread
      exact ⟨seen', .cons hentry hfolds, hneeded⟩
  | @absent field fields es s u hin _ ih =>
      have hsplit' : f.fields = (before ++ [field]) ++ fields := by rw [hsplit, List.append_cons]
      refine ih hsplit' ?_ ?_
      · intro n hn
        rw [List.map_append]
        exact List.mem_append_left _ (hseen n hn)
      · intro g hg hneeded
        rcases List.mem_append.mp hg with hg | hg
        · exact hbefore g hg hneeded
        · rw [List.mem_singleton.mp hg, hin] at hneeded
          cases hneeded

/-- A record is read back from entries that fill its fields. -/
theorem reads_of_fills (hf : (f.fields.map Field.name).Nodup) {es : List (String × Json)} {a : σ}
    (h : Fills d f.fields es f.blank a) : Reads (f.read (d + 1)) (object es).compact a := by
  obtain ⟨seen, hfolds, hneeded⟩ := folds_of_fills hf h (List.nil_append f.fields).symm
    (List.forall_mem_nil _) (List.forall_mem_nil _)
  have hmissing : f.missing? seen = none := by
    refine List.find?_eq_none.mpr fun field hfield => ?_
    simpa using hneeded field hfield
  intro x _
  rw [read, Reader.bind_of_ok (head_object_append es x)]
  change f.fromObject d _ = _
  rw [fromObject, Reader.bind_of_ok (foldEntries_compactEntries hfolds x)]
  dsimp only
  rw [hmissing]
  rfl

end Format

/-! ## Cases -/

theorem Case.reads_plain {cases : List (Case α)} {name : String} {a : α}
    (hfind : cases.find? (·.name == name) = some (.plain name a)) :
    Reads (Case.read cases d) (Text.quoted name) a := by
  intro x _
  change (stringRest >>= fun s => find cases s >>= fun c => c.alone)
    (name.toList.flatMap Text.escaped ++ ['"'] ++ x) = _
  rw [Reader.bind_of_ok (stringRest_append name x), find, hfind]
  rfl

/-! ## Buffered records -/

namespace Buffered

/-- The entries set the fields one after another and take one record to another. -/
inductive Sets : List (Field σ) → List (String × Json) → σ → σ → Prop where
  | nil (s : σ) : Sets [] [] s s
  | cons {field : Field σ} {fields : List (Field σ)} {j : Json} {es : List (String × Json)}
    {s t u : σ} : field.set j s = .ok t → Sets fields es t u →
      Sets (field :: fields) ((field.name, j) :: es) s u

namespace Format

variable {f : Format σ}

theorem entriesFrom_of_sets (hf : (f.fields.map Field.name).Nodup) {before fields : List (Field σ)}
    {es : List (String × Json)} {s u : σ} (h : Sets fields es s u)
    (hsplit : f.fields = before ++ fields) {seen : List String}
    (hseen : ∀ n, n ∈ seen ↔ n ∈ before.map Field.name) :
    ∃ seen', f.entriesFrom es (s, seen) = .ok (u, seen') ∧
      ∀ n, n ∈ seen' ↔ n ∈ f.fields.map Field.name := by
  induction h generalizing before seen with
  | nil s =>
      rw [List.append_nil] at hsplit
      exact ⟨seen, rfl, hsplit ▸ hseen⟩
  | @cons field fields j es s t u hset _ ih =>
      have hnew : field.name ∉ seen := fun hmem =>
        Names.name_notMem_of_nodup (hsplit ▸ hf) ((hseen _).mp hmem)
      have hfield : field ∈ f.fields := by
        rw [hsplit]
        exact List.mem_append_right _ List.mem_cons_self
      have hcontains : seen.contains field.name = false := by simpa using hnew
      have hstep : f.entriesFrom ((field.name, j) :: es) (s, seen) =
          f.entriesFrom es (t, field.name :: seen) := by
        rw [entriesFrom, Names.find?_name_eq_some hf hfield]
        simp only [hcontains, Bool.false_eq_true, if_false, hset]
        rfl
      have hsplit' : f.fields = (before ++ [field]) ++ fields := by rw [hsplit, List.append_cons]
      rw [hstep]
      refine ih hsplit' fun n => ?_
      rw [List.map_append, List.mem_append, List.mem_cons, hseen, or_comm]
      simp

/-- A buffered record comes back from entries that set all its fields. -/
theorem ofEntries_of_sets (hf : (f.fields.map Field.name).Nodup) {es : List (String × Json)}
    {a : σ} (h : Sets f.fields es f.blank a) : f.ofEntries es = .ok a := by
  have hnone : ∀ n, n ∈ ([] : List String) ↔ n ∈ ([] : List (Field σ)).map Field.name := by simp
  obtain ⟨seen, hentries, hseen⟩ := entriesFrom_of_sets hf h (List.nil_append f.fields).symm hnone
  have hmissing :
      (f.fields.find? fun field => field.needed && !seen.contains field.name) = none := by
    refine List.find?_eq_none.mpr fun field hfield => ?_
    simp [(hseen field.name).mpr (List.mem_map_of_mem hfield)]
  rw [ofEntries, hentries]
  dsimp only [bind, Except.bind]
  rw [hmissing]

end Format

end Buffered

end ServiceSchema.Json
