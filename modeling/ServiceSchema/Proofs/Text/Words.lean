import ServiceSchema.Model.Service
/-!
# The words of a text

What stands between separators are the words of a text.  In Pascal case only the words matter, one
after the other and each with its first character in upper case.  So a text can be taken apart at
any separator, and texts with the same words lead to the same names.
-/

namespace ServiceSchema.Text

variable {c d : Char} {cs x y r : List Char} {s t : String}

def words (cs : List Char) : List (List Char) :=
  (cs.splitOnP isSeparator).filter (!·.isEmpty)

def capitalized : List Char → List Char
  | [] => []
  | c :: cs => uppercase c ++ cs

/-! ## Words and separators -/

theorem words_append_separator (x y : List Char) (hc : isSeparator c = true) :
    words (x ++ c :: y) = words x ++ words y := by
  rw [words, List.splitOnP_append_cons x y hc, List.filter_append]
  rfl

theorem words_separators_append (x : List Char) (hr : ∀ c ∈ r, isSeparator c = true) :
    words (r ++ x) = words x := by
  induction r with
  | nil => rfl
  | cons c r ih =>
      obtain ⟨hc, hr⟩ := List.forall_mem_cons.mp hr
      exact (words_append_separator [] (r ++ x) hc).trans (ih hr)

/-- A run of separators ends a word, however long it is. -/
theorem words_append_append (x y : List Char) (hr : ∀ c ∈ r, isSeparator c = true) (hne : r ≠ []) :
    words (x ++ (r ++ y)) = words x ++ words y := by
  obtain ⟨c, r, rfl⟩ := List.exists_cons_of_ne_nil hne
  obtain ⟨hc, hr⟩ := List.forall_mem_cons.mp hr
  rw [List.cons_append, words_append_separator x _ hc, words_separators_append y hr]

theorem words_append_separators (x : List Char) (hr : ∀ c ∈ r, isSeparator c = true) :
    words (x ++ r) = words x := by
  by_cases hne : r = []
  · rw [hne, List.append_nil]
  · have hend := words_append_append x [] hr hne
    rwa [List.append_nil, show words [] = [] from rfl, List.append_nil] at hend

/-! ## Words in Pascal case -/

/-- The first piece of a text goes on with a word when no word begins there. -/
theorem joinWords_eq (cs : List Char) : ∃ p ps, cs.splitOnP isSeparator = p :: ps ∧
    joinWords true cs = capitalized p ++ ps.flatMap capitalized ∧
    joinWords false cs = p ++ ps.flatMap capitalized := by
  induction cs with
  | nil => exact ⟨[], [], List.splitOnP_nil, rfl, rfl⟩
  | cons c cs ih =>
      obtain ⟨p, ps, hpieces, hstart, hinside⟩ := ih
      rw [List.splitOnP_cons_eq_if_modifyHead, hpieces]
      cases hc : isSeparator c with
      | true =>
          -- Once a separator is read, whether a word was to begin is forgotten.
          have hjoin : ∀ start, joinWords start (c :: cs) = joinWords true cs := by
            intro start
            rw [joinWords, if_pos hc]
          exact ⟨[], p :: ps, rfl, (hjoin true).trans hstart, (hjoin false).trans hstart⟩
      | false =>
          refine ⟨c :: p, ps, rfl, ?_, ?_⟩
          · simp [joinWords, hc, hinside, capitalized]
          · simp [joinWords, hc, hinside]

theorem flatMap_capitalized_filter (ps : List (List Char)) :
    (ps.filter (!·.isEmpty)).flatMap capitalized = ps.flatMap capitalized := by
  induction ps with
  | nil => rfl
  | cons p ps ih =>
      cases p with
      | nil => exact ih
      | cons c cs => exact congrArg (capitalized (c :: cs) ++ ·) ih

theorem joinWords_true (cs : List Char) : joinWords true cs = (words cs).flatMap capitalized := by
  obtain ⟨p, ps, hpieces, hstart, -⟩ := joinWords_eq cs
  rw [words, flatMap_capitalized_filter, hpieces, hstart, List.flatMap_cons]

theorem pascalCase_eq (s : String) :
    pascalCase s = String.ofList ((words s.toList).flatMap capitalized) := by
  rw [pascalCase, joinWords_true]

/-! ## Upper case -/

theorem eq_of_isSeparator (h : isSeparator c = true) :
    c.toNat = 0x5f ∨ c.toNat = 0x2d ∨ c.toNat = 0x20 := by
  simp only [isSeparator, Bool.or_eq_true, beq_iff_eq] at h
  rcases h with (rfl | rfl) | rfl <;> decide

theorem isSeparator_ofNat {n : Nat} (h : isSeparator (Char.ofNat n) = true) :
    n = 0x5f ∨ n = 0x2d ∨ n = 0x20 := by
  have hcode := eq_of_isSeparator h
  by_cases hn : n.isValidChar
  · have hnat : (Char.ofNat n).toNat = n := by
      rw [Char.ofNat, dif_pos hn]
      rfl
    rwa [hnat] at hcode
  · rw [Char.ofNat, dif_neg hn] at hcode
    exact absurd hcode (by decide)

/-- No separator is the upper case of another character, or a part of it. -/
theorem isSeparator_of_mem_uppercase (hc : isSeparator c = false) (hd : d ∈ uppercase c) :
    isSeparator d = false := by
  have hexpansions : ∀ p ∈ caseExpansions, ∀ n ∈ p.2, isSeparator (Char.ofNat n) = false := by
    decide +kernel
  have hranges : ∀ r ∈ caseRanges, ∀ n ∈ [0x5f, 0x2d, 0x20],
      n < (r.first : Int) + r.shift ∨ (r.last : Int) + r.shift < n := by
    decide +kernel
  unfold uppercase at hd
  split at hd
  · next codes hlookup =>
      obtain ⟨l₁, l₂, hmem, -⟩ := List.lookup_eq_some_iff.mp hlookup
      obtain ⟨n, hn, rfl⟩ := List.mem_map.mp hd
      exact hexpansions (c.toNat, codes) (by simp [hmem]) n hn
  · split at hd
    · next r hfind =>
        rw [List.mem_singleton] at hd
        subst hd
        rw [← Bool.not_eq_true]
        intro hsep
        have hin := List.find?_some hfind
        simp only [CaseRange.contains, Bool.and_eq_true, decide_eq_true_eq] at hin
        have hshift := hranges r (List.mem_of_find?_eq_some hfind)
        simp only [List.forall_mem_cons] at hshift
        have hcode := isSeparator_ofNat hsep
        omega
    · rw [List.mem_singleton.mp hd, hc]

theorem isSeparator_of_mem_joinWords {start : Bool} (h : d ∈ joinWords start cs) :
    isSeparator d = false := by
  fun_induction joinWords start cs with
  | case1 start => exact absurd h List.not_mem_nil
  | case2 start c cs hc ih => exact ih h
  | case3 c cs hc ih =>
      rcases List.mem_append.mp h with h | h
      · exact isSeparator_of_mem_uppercase (Bool.eq_false_iff.mpr hc) h
      · exact ih h
  | case4 start c cs hc hinside ih =>
      rcases List.mem_cons.mp h with rfl | h
      · exact Bool.eq_false_iff.mpr hc
      · exact ih h

/-! ## Names -/

def Separators (r : String) : Prop := ∀ c ∈ r.toList, isSeparator c = true

instance (r : String) : Decidable (Separators r) :=
  decidable_of_iff (r.toList.all isSeparator = true) List.all_eq_true

/-- Two texts that differ by separators at the start, at the end, or where both have some. -/
inductive Respaced : String → String → Prop where
  | leading {r : String} (s : String) : Separators r → Respaced (r ++ s) s
  | trailing {r : String} (s : String) : Separators r → Respaced (s ++ r) s
  | between {q r : String} (s t : String) : Separators q → Separators r → q ≠ "" → r ≠ "" →
    Respaced (s ++ q ++ t) (s ++ r ++ t)

theorem Respaced.words_eq (h : Respaced s t) : words s.toList = words t.toList := by
  cases h with
  | leading _ hr =>
      rw [String.toList_append]
      exact words_separators_append _ hr
  | trailing _ hr =>
      rw [String.toList_append]
      exact words_append_separators _ hr
  | between s t hq hr hq' hr' =>
      have hq'' := mt String.toList_eq_nil_iff.mp hq'
      have hr'' := mt String.toList_eq_nil_iff.mp hr'
      simp only [String.toList_append, List.append_assoc]
      rw [words_append_append s.toList t.toList hq hq'',
        words_append_append s.toList t.toList hr hr'']

theorem Respaced.pascalCase_eq (h : Respaced s t) : pascalCase s = pascalCase t := by
  rw [Text.pascalCase_eq, Text.pascalCase_eq, h.words_eq]

/-- Pascal case can be taken apart at any separator and holds none itself.  So the name of a
parameter bag does not tell how many separators the names of the interface and of the method have
at their ends and between their words. -/
theorem pascalCase_separated :
    (∀ (a b : String) (c : Char), isSeparator c = true →
      pascalCase (a ++ String.singleton c ++ b) = pascalCase a ++ pascalCase b) ∧
    (∀ s : String, ∀ c ∈ (pascalCase s).toList, isSeparator c = false) ∧
    ∀ s t : String, Respaced s t → ∀ other : String,
      Naming.pascal.parameterBag s other = Naming.pascal.parameterBag t other ∧
        Naming.pascal.parameterBag other s = Naming.pascal.parameterBag other t := by
  refine ⟨?_, ?_, ?_⟩
  · intro a b c hc
    have hwords : words (a ++ String.singleton c ++ b).toList =
        words a.toList ++ words b.toList := by
      rw [String.toList_append, String.toList_append, String.toList_singleton, List.append_assoc]
      exact words_append_separator _ _ hc
    rw [pascalCase_eq, hwords, List.flatMap_append, String.ofList_append, ← pascalCase_eq,
      ← pascalCase_eq]
  · intro s c hc
    rw [pascalCase, String.toList_ofList] at hc
    exact isSeparator_of_mem_joinWords hc
  · intro s t h other
    have hname := h.pascalCase_eq
    exact ⟨congrArg (· ++ pascalCase other ++ "Params") hname,
      congrArg (pascalCase other ++ · ++ "Params") hname⟩

/-- A word that begins with a ligature ends in two separators, and the next begins with a letter
whose upper case is two letters. -/
theorem pascalCase_separated_of_expanding_letters :
    isSeparator '_' = true ∧ pascalCase "ﬁle-_ßeta" = "FIleSSeta" ∧
      Respaced ("user" ++ "_- " ++ "admin") ("user" ++ "-" ++ "admin") ∧
      Naming.pascal.parameterBag "user_- admin" "get" = "UserAdminGetParams" := by
  obtain ⟨hsplit, -, hnames⟩ := pascalCase_separated
  have hspaced : Respaced ("user" ++ "_- " ++ "admin") ("user" ++ "-" ++ "admin") :=
    .between "user" "admin" (by decide) (by decide) (by decide) (by decide)
  have hfile : pascalCase "ﬁle-" = "FIle" := by decide +kernel
  have hbeta : pascalCase "ßeta" = "SSeta" := by decide +kernel
  have hname : Naming.pascal.parameterBag "user-admin" "get" = "UserAdminGetParams" := by
    decide +kernel
  refine ⟨rfl, ?_, hspaced, ?_⟩
  · have hpieces := hsplit "ﬁle-" "ßeta" '_' rfl
    rw [hfile, hbeta] at hpieces
    exact hpieces
  · exact (hnames _ _ hspaced "get").1.trans hname

end ServiceSchema.Text
