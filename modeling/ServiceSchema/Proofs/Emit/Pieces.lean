import ServiceSchema.Emit.Module
import ServiceSchema.Proofs.Json.Compact
/-!
# Pieces of modules

Identifiers, property keys, counts, lists of literals and comments: each determines what it stands
for and where it ends.
-/

namespace ServiceSchema.Emit

open Text (quoted quoted_append_inj StopsRun run_append_inj separated_append_inj)
open Json (natText natText_injective isDigit_of_mem_natText)

variable {x y : List Char}

/-! ## Identifiers -/

/-- The characters of identifiers; beyond ASCII each counts as a letter. -/
def isWordChar (c : Char) : Bool :=
  isIdentifierRest c || decide (0x7f < c.toNat)

theorem isIdentifierRest_of_isIdentifierStart {c : Char} (h : isIdentifierStart c = true) :
    isIdentifierRest c = true := by
  simp only [isIdentifierStart, isIdentifierRest, Char.isAlphanum, Bool.or_eq_true] at h ⊢
  tauto

theorem isIdentifierRest_of_mem {cs : List Char} {c : Char} (h : isIdentifier cs = true)
    (hc : c ∈ cs) : isIdentifierRest c = true := by
  cases cs with
  | nil => exact absurd hc List.not_mem_nil
  | cons d cs =>
      simp only [isIdentifier, Bool.and_eq_true, List.all_eq_true] at h
      rcases List.mem_cons.mp hc with rfl | hc
      · exact isIdentifierRest_of_isIdentifierStart h.1
      · exact h.2 c hc

theorem ne_nil_of_isIdentifier {cs : List Char} (h : isIdentifier cs = true) : cs ≠ [] := by
  rintro rfl
  exact absurd h (by decide)

/-- The suffix leaves names identifiers. -/
def WordSuffix (o : EmitOptions) : Prop := ∀ c ∈ o.suffix.toList, isWordChar c = true

instance (o : EmitOptions) : Decidable (WordSuffix o) :=
  decidable_of_iff (o.suffix.toList.all isWordChar = true) List.all_eq_true

theorem isWordChar_of_mem_identifier {o : EmitOptions} (ho : WordSuffix o) {n : String}
    (hn : isIdentifier n.toList = true) {c : Char} (hc : c ∈ (o.identifier n).toList) :
    isWordChar c = true := by
  rw [EmitOptions.identifier, String.toList_append] at hc
  rcases List.mem_append.mp hc with hc | hc
  · simp [isWordChar, isIdentifierRest_of_mem hn hc]
  · exact ho c hc

theorem identifier_injective (o : EmitOptions) : Function.Injective o.identifier := by
  intro m n h
  have := congrArg String.toList h
  rw [EmitOptions.identifier, EmitOptions.identifier, String.toList_append,
    String.toList_append] at this
  exact String.toList_injective (List.append_cancel_right this)

theorem identifier_append_inj {o : EmitOptions} (ho : WordSuffix o) {m n : String}
    (hm : isIdentifier m.toList = true) (hn : isIdentifier n.toList = true)
    (hx : StopsRun isWordChar x) (hy : StopsRun isWordChar y)
    (h : (o.identifier m).toList ++ x = (o.identifier n).toList ++ y) : m = n ∧ x = y := by
  obtain ⟨hmn, hxy⟩ := run_append_inj (fun _ => isWordChar_of_mem_identifier ho hm)
    (fun _ => isWordChar_of_mem_identifier ho hn) hx hy h
  exact ⟨identifier_injective o (String.toList_injective hmn), hxy⟩

/-! ## Property keys -/

theorem head?_append_ne_of_isIdentifier {n : String} (hn : isIdentifier n.toList = true)
    (z : List Char) : (n.toList ++ z).head? ≠ some '"' := by
  obtain ⟨c, cs, hcs⟩ := List.exists_cons_of_ne_nil (ne_nil_of_isIdentifier hn)
  rw [hcs] at hn ⊢
  intro h
  obtain rfl : c = '"' := Option.some.inj h
  simp only [isIdentifier, Bool.and_eq_true] at hn
  exact absurd hn.1 (by decide)

theorem property_append_inj {m n : String}
    (h : property m ++ ':' :: x = property n ++ ':' :: y) : m = n ∧ x = y := by
  unfold property at h
  split at h
  · next hm =>
      split at h
      · next hn =>
          obtain ⟨hmn, hxy⟩ := run_append_inj (fun _ => isIdentifierRest_of_mem hm)
            (fun _ => isIdentifierRest_of_mem hn) (.cons rfl) (.cons rfl) h
          exact ⟨String.toList_injective hmn, List.tail_eq_of_cons_eq hxy⟩
      · exact absurd (congrArg List.head? h) (head?_append_ne_of_isIdentifier hm _)
  · split at h
    · next hn =>
        exact absurd (congrArg List.head? h).symm (head?_append_ne_of_isIdentifier hn _)
    · obtain ⟨hmn, hxy⟩ := quoted_append_inj h
      exact ⟨hmn, List.tail_eq_of_cons_eq hxy⟩

/-! ## Counts and literals -/

theorem countText_append_inj {m n : UInt64} (hx : StopsRun Char.isDigit x)
    (hy : StopsRun Char.isDigit y) (h : countText m ++ x = countText n ++ y) : m = n ∧ x = y := by
  obtain ⟨hmn, hxy⟩ := run_append_inj (fun _ => isDigit_of_mem_natText)
    (fun _ => isDigit_of_mem_natText) hx hy h
  exact ⟨UInt64.toNat.inj (natText_injective hmn), hxy⟩

theorem commaList_eq (ps : List (List Char)) : commaList ps = [',', ' '].intercalate ps := by
  induction ps with
  | nil => rfl
  | cons p ps ih =>
      cases ps with
      | nil => simp [commaList]
      | cons q qs =>
          rw [List.intercalate_cons_cons, ← ih, List.append_assoc]
          rfl

theorem quotedList_append_inj {ss ts : List String}
    (h : quotedList ss ++ x = quotedList ts ++ y) : ss = ts ∧ x = y := by
  simp only [quotedList, commaList_eq, List.cons_append, List.append_assoc, List.cons.injEq,
    true_and, List.nil_append] at h
  obtain ⟨hlists, hxy⟩ := separated_append_inj (R := Eq) (fun _ => True) (fun _ => trivial)
    (fun _ => trivial) (fun _ => by simp) (fun _ _ _ => by simp [quoted])
    (fun _ _ _ _ _ _ _ _ heq => quoted_append_inj heq) h
  exact ⟨List.forall₂_eq_eq_eq ▸ hlists, hxy⟩

/-! ## Comments -/

/-- A text that does not end a comment itself is determined by the comment. -/
theorem comment_append_inj {r s : List Char} (hr : ¬ ['*', '/'] <:+: r) (hs : ¬ ['*', '/'] <:+: s)
    (h : r ++ ' ' :: '*' :: '/' :: x = s ++ ' ' :: '*' :: '/' :: y) : r = s ∧ x = y := by
  -- A longer text would go on with the end of the shorter one's comment.
  have hlonger : ∀ {r s x y : List Char}, ¬ ['*', '/'] <:+: s →
      ∀ t, s = r ++ t → ' ' :: '*' :: '/' :: x = t ++ ' ' :: '*' :: '/' :: y → t = [] := by
    intro r s x y hs t hst ht
    rcases t with _ | ⟨a, _ | ⟨b, _ | ⟨c, t⟩⟩⟩
    · rfl
    · simp at ht
    · simp at ht
    · obtain ⟨-, rfl, rfl, -⟩ : ' ' = a ∧ '*' = b ∧ '/' = c ∧ _ := by simpa using ht
      exact absurd ⟨r ++ [a], t, by simp [hst]⟩ hs
  rcases List.append_eq_append_iff.mp h with ⟨t, hst, ht⟩ | ⟨t, hrt, ht⟩
  · obtain rfl := hlonger hs t hst ht
    simpa [hst] using ht
  · obtain rfl := hlonger hr t hrt ht
    simpa [hrt] using ht.symm

end ServiceSchema.Emit
