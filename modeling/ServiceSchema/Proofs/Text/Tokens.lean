import Mathlib.Data.List.Forall2
import ServiceSchema.Json.Reader
import ServiceSchema.Text.Quoted
/-!
# Where tokens end

A run of characters of one class ends before the first character that is not of the class, and a
string literal ends at its first quote without a backslash.  So a text that begins with a token
determines the token and what follows it.  For literals this holds because the reader of strings
gives back what was quoted.  A list of items is determined when each item is and no item begins
like what ends the list.
-/

namespace ServiceSchema.Text

/-! ## Runs -/

def StopsRun (p : Char → Bool) (x : List Char) : Prop := ∀ c ∈ x.head?, p c = false

theorem StopsRun.cons {p : Char → Bool} {c : Char} {x : List Char} (hc : p c = false) :
    StopsRun p (c :: x) := by
  intro d hd
  rw [← Option.some.inj hd]
  exact hc

theorem run_append_inj {p : Char → Bool} {v w x y : List Char} (hv : ∀ c ∈ v, p c = true)
    (hw : ∀ c ∈ w, p c = true) (hx : StopsRun p x) (hy : StopsRun p y) (h : v ++ x = w ++ y) :
    v = w ∧ x = y := by
  induction v generalizing w with
  | nil =>
      cases w with
      | nil => exact ⟨rfl, h⟩
      | cons d w =>
          have hd : p d = true := hw d List.mem_cons_self
          rw [List.nil_append] at h
          rw [h] at hx
          exact absurd hd (by simp [hx d rfl])
  | cons c v ih =>
      cases w with
      | nil =>
          have hc : p c = true := hv c List.mem_cons_self
          rw [List.nil_append] at h
          rw [← h] at hy
          exact absurd hc (by simp [hy c rfl])
      | cons d w =>
          obtain ⟨rfl, htail⟩ := List.cons_eq_cons.mp h
          obtain ⟨rfl, hrest⟩ := ih (fun e he => hv e (List.mem_cons_of_mem _ he))
            (fun e he => hw e (List.mem_cons_of_mem _ he)) htail
          exact ⟨rfl, hrest⟩

/-! ## Literals -/

open Json (stringPieces escapeWith unitChar stringRest)

/-- What stands for a character: a backslash and a letter, a backslash and four hexadecimal digits,
or the character itself. -/
theorem escaped_cases (c : Char) :
    (∃ l, escaped c = ['\\', l] ∧ l ≠ 'u' ∧ Json.escapeLetter? l = some c) ∨
      (escaped c = '\\' :: 'u' :: '0' :: '0' :: hexByte c.toNat ∧ c.toNat < 32) ∨
      escaped c = [c] ∧ c ≠ '"' ∧ c ≠ '\\' ∧ ¬ c.toNat < 32 := by
  unfold escaped
  iterate 7
    split
    · next h =>
        subst h
        exact Or.inl ⟨_, rfl, by decide, rfl⟩
  split
  · next h => exact Or.inr (Or.inl ⟨rfl, h⟩)
  · exact Or.inr (Or.inr ⟨rfl, ‹_›, ‹_›, ‹_›⟩)

theorem hexUnit_hexByte {n : Nat} (hn : n < 32) (x : List Char) :
    Json.hexUnit ('0' :: '0' :: (hexByte n ++ x)) = .ok (n, x) := by
  have hdigits : ∀ n < 32, Json.hexValue? (Nat.digitChar (n / 16)) = some (n / 16) ∧
      Json.hexValue? (Nat.digitChar (n % 16)) = some (n % 16) := by decide
  obtain ⟨hhigh, hlow⟩ := hdigits n hn
  have hzero : Json.hexValue? '0' = some 0 := rfl
  have hvalue : ((0 * 16 + 0) * 16 + n / 16) * 16 + n % 16 = n := by omega
  simp only [Json.hexUnit, hexByte, List.cons_append, List.nil_append, hzero, hhigh, hlow, hvalue]

theorem pure_eq {α : Type} (a : α) (x : List Char) : (pure a : Json.Reader α) x = .ok (a, x) :=
  rfl

theorem escapeWith_letter {l c : Char} (hl : l ≠ 'u') (hc : Json.escapeLetter? l = some c)
    (x : List Char) : escapeWith id unitChar (l :: x) = .ok (c, x) := by
  simp only [escapeWith, Json.inString, bind, StateT.bind, Except.bind, hl, if_false, hc,
    pure_eq, id]

theorem escapeWith_unit {c : Char} (hc : c.toNat < 32) (x : List Char) :
    escapeWith id unitChar ('u' :: '0' :: '0' :: (hexByte c.toNat ++ x)) = .ok (c, x) := by
  have htrailing : Json.isTrailing c.toNat = false := by
    simp only [Json.isTrailing, Bool.and_eq_false_iff, decide_eq_false_iff_not]
    omega
  have hleading : Json.isLeading c.toNat = false := by
    simp only [Json.isLeading, Bool.and_eq_false_iff, decide_eq_false_iff_not]
    omega
  simp only [escapeWith, Json.inString, bind, StateT.bind, Except.bind, if_true,
    hexUnit_hexByte hc, unitChar, htrailing, hleading, Bool.false_eq_true, if_false, pure_eq,
    Char.ofNat_toNat]

theorem stringPieces_escaped (c : Char) (x : List Char) (fuel : Nat) :
    stringPieces id unitChar (fuel + 1) (escaped c ++ x) =
      (stringPieces id unitChar fuel x).map fun read => (c :: read.1, read.2) := by
  have hslash : ∀ y, escapeWith id unitChar y = .ok (c, x) →
      stringPieces id unitChar (fuel + 1) ('\\' :: y) =
        (stringPieces id unitChar fuel x).map fun read => (c :: read.1, read.2) := by
    intro y hy
    simp only [stringPieces, Json.inString, bind, StateT.bind, Except.bind, hy, if_true, if_false,
      show ¬ '\\' = '"' by decide, pure_eq, Except.map]
  rcases escaped_cases c with ⟨l, h, hl, hc⟩ | ⟨h, hc⟩ | ⟨h, hquote, hback, hc⟩
  · rw [h]
    exact hslash _ (escapeWith_letter hl hc x)
  · rw [h]
    exact hslash _ (escapeWith_unit hc x)
  · rw [h]
    simp only [List.cons_append, List.nil_append, stringPieces, Json.inString, bind, StateT.bind,
      Except.bind, hquote, hback, hc, if_false, pure_eq, Except.map, id]

theorem stringPieces_flatMap_escaped (cs x : List Char) {fuel : Nat} (hfuel : cs.length < fuel) :
    stringPieces id unitChar fuel (cs.flatMap escaped ++ '"' :: x) = .ok (cs, x) := by
  induction cs generalizing fuel with
  | nil =>
      obtain ⟨fuel, rfl⟩ := Nat.exists_eq_succ_of_ne_zero (Nat.ne_of_gt hfuel)
      rfl
  | cons c cs ih =>
      obtain ⟨fuel, rfl⟩ := Nat.exists_eq_succ_of_ne_zero (Nat.ne_of_gt (Nat.zero_lt_of_lt hfuel))
      rw [List.flatMap_cons, List.append_assoc, Nat.succ_eq_add_one, stringPieces_escaped,
        ih (Nat.lt_of_succ_lt_succ hfuel)]
      rfl

theorem length_le_length_flatMap_escaped (cs : List Char) :
    cs.length ≤ (cs.flatMap escaped).length := by
  induction cs with
  | nil => exact Nat.le_refl 0
  | cons c cs ih =>
      have hc : 0 < (escaped c).length := by
        rcases escaped_cases c with ⟨l, h, -⟩ | ⟨h, -⟩ | ⟨h, -⟩ <;> simp [h]
      rw [List.flatMap_cons, List.length_append, List.length_cons]
      omega

theorem stringRest_quoted (s : String) (x : List Char) :
    stringRest (s.toList.flatMap escaped ++ '"' :: x) = .ok (s, x) := by
  have hfuel : s.toList.length < (s.toList.flatMap escaped ++ '"' :: x).length := by
    have := length_le_length_flatMap_escaped s.toList
    rw [List.length_append, List.length_cons]
    omega
  simp only [stringRest, bind, StateT.bind, Except.bind, stringPieces_flatMap_escaped _ _ hfuel,
    pure_eq, String.ofList_toList]

/-- A literal determines the string that it stands for and where it ends. -/
theorem quoted_append_inj {s t : String} {x y : List Char} (h : quoted s ++ x = quoted t ++ y) :
    s = t ∧ x = y := by
  have htail : s.toList.flatMap escaped ++ '"' :: x = t.toList.flatMap escaped ++ '"' :: y := by
    simpa [quoted] using h
  have hread : (Except.ok (s, x) : Except Json.Fault _) = .ok (t, y) := by
    rw [← stringRest_quoted s x, ← stringRest_quoted t y, htail]
  simpa using hread

/-! ## Lists -/

section Lists

variable {α : Type} {R : α → α → Prop} {Follows Ends : List Char → Prop} {f : α → List Char}
  {as bs : List α} {x y : List Char}

theorem follows_flatMap_append (hends : ∀ z, Ends z → Follows z)
    (hfollows : ∀ a z, Follows (f a ++ z)) (hx : Ends x) : Follows (as.flatMap f ++ x) := by
  cases as with
  | nil => exact hends x hx
  | cons a as =>
      rw [List.flatMap_cons, List.append_assoc]
      exact hfollows a _

/-- Items set one after another, up to a text that begins like none of them. -/
theorem flatMap_append_inj (Follows Ends : List Char → Prop) (hends : ∀ z, Ends z → Follows z)
    (hfollows : ∀ a z, Follows (f a ++ z)) (hdisjoint : ∀ a z, ¬ Ends (f a ++ z))
    (hitem : ∀ a ∈ as, ∀ b ∈ bs, ∀ v w, Follows v → Follows w → f a ++ v = f b ++ w → R a b ∧ v = w)
    (hx : Ends x) (hy : Ends y) (h : as.flatMap f ++ x = bs.flatMap f ++ y) :
    List.Forall₂ R as bs ∧ x = y := by
  induction as generalizing bs with
  | nil =>
      cases bs with
      | nil => exact ⟨.nil, h⟩
      | cons b bs =>
          rw [List.flatMap_nil, List.nil_append, List.flatMap_cons, List.append_assoc] at h
          exact absurd (h ▸ hx) (hdisjoint b _)
  | cons a as ih =>
      cases bs with
      | nil =>
          rw [List.flatMap_nil, List.nil_append, List.flatMap_cons, List.append_assoc] at h
          exact absurd (h ▸ hy) (hdisjoint a _)
      | cons b bs =>
          rw [List.flatMap_cons, List.flatMap_cons, List.append_assoc, List.append_assoc] at h
          obtain ⟨hab, htail⟩ := hitem a List.mem_cons_self b List.mem_cons_self _ _
            (follows_flatMap_append hends hfollows hx) (follows_flatMap_append hends hfollows hy) h
          obtain ⟨htails, hxy⟩ := ih (fun a ha b hb => hitem a (List.mem_cons_of_mem _ ha) b
            (List.mem_cons_of_mem _ hb)) htail
          exact ⟨.cons hab htails, hxy⟩

theorem intercalate_cons_eq_flatMap (sep p : List Char) (ps : List (List Char)) :
    sep.intercalate (p :: ps) = p ++ ps.flatMap (sep ++ ·) := by
  induction ps generalizing p with
  | nil => simp
  | cons q qs ih =>
      rw [List.intercalate_cons_cons, ih q, List.flatMap_cons, List.append_assoc,
        List.append_assoc]

/-- Items between separators, up to a closing character that begins neither an item nor a
separator. -/
theorem separated_append_inj (Follows : List Char → Prop) {sep : List Char} {c : Char}
    (hsep : ∀ z, Follows (sep ++ z)) (hclose : ∀ z, Follows (c :: z))
    (hsepclose : ∀ z, (sep ++ z).head? ≠ some c)
    (hopen : ∀ a z, a ∈ as ∨ a ∈ bs → (f a ++ z).head? ≠ some c)
    (hitem : ∀ a ∈ as, ∀ b ∈ bs, ∀ v w, Follows v → Follows w → f a ++ v = f b ++ w → R a b ∧ v = w)
    (h : sep.intercalate (as.map f) ++ c :: x = sep.intercalate (bs.map f) ++ c :: y) :
    List.Forall₂ R as bs ∧ x = y := by
  have hends : ∀ z : List Char, z.head? = some c → Follows z := by
    intro z hz
    cases z with
    | nil => exact absurd hz (by simp)
    | cons d z =>
        obtain rfl : d = c := by simpa using hz
        exact hclose z
  have hfollows : ∀ a z, Follows ((sep ++ f a) ++ z) := by
    intro a z
    rw [List.append_assoc]
    exact hsep _
  cases as with
  | nil =>
      cases bs with
      | nil => exact ⟨.nil, by simpa using h⟩
      | cons b bs =>
          rw [List.map_cons, intercalate_cons_eq_flatMap, List.append_assoc] at h
          exact absurd (congrArg List.head? h).symm (hopen b _ (.inr List.mem_cons_self))
  | cons a as =>
      cases bs with
      | nil =>
          rw [List.map_cons, intercalate_cons_eq_flatMap, List.append_assoc] at h
          exact absurd (congrArg List.head? h) (hopen a _ (.inl List.mem_cons_self))
      | cons b bs =>
          simp only [List.map_cons, intercalate_cons_eq_flatMap, List.append_assoc,
            List.flatMap_map] at h
          obtain ⟨hab, htail⟩ := hitem a List.mem_cons_self b List.mem_cons_self _ _
            (follows_flatMap_append hends hfollows rfl) (follows_flatMap_append hends hfollows rfl)
            h
          have htails := flatMap_append_inj Follows (·.head? = some c) hends hfollows
            (fun a z => by
              rw [List.append_assoc]
              exact hsepclose _)
            (fun a ha b hb v w hv hw hvw => by
              rw [List.append_assoc, List.append_assoc] at hvw
              exact hitem a (List.mem_cons_of_mem _ ha) b (List.mem_cons_of_mem _ hb) v w hv hw
                (List.append_cancel_left hvw))
            rfl rfl htail
          exact ⟨.cons hab htails.1, List.tail_eq_of_cons_eq htails.2⟩

theorem map_eq_of_forall₂ {β : Type} {g : α → β} (hg : ∀ a ∈ as, ∀ b, R a b → g a = g b)
    (h : List.Forall₂ R as bs) : as.map g = bs.map g := by
  induction h with
  | nil => rfl
  | cons hab _ ih =>
      rw [List.map_cons, List.map_cons, hg _ List.mem_cons_self _ hab,
        ih fun a ha => hg a (List.mem_cons_of_mem _ ha)]

end Lists

end ServiceSchema.Text
