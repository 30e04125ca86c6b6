import Mathlib.Data.List.TakeWhile
import ServiceSchema.Proofs.Json.Compact
import ServiceSchema.Proofs.Json.Readers
/-!
# Numbers that are read back

The text of an integer is read as this integer.  Scaling a significand by a power of ten is inexact,
so not every floating-point number is read back; one that is, on its own, is read back in every
place, because the text that ends a value does not go on with a numeral.
-/

namespace ServiceSchema.Json

open Text (StopsRun)

variable {α β : Type}

/-! ## Local readers -/

/-- The reader leaves an end of the text, and does not look at what ends the value behind it. -/
def Local (r : Reader α) : Prop :=
  ∀ cs a rest, r cs = .ok (a, rest) →
    rest <:+ cs ∧ ∀ x, Ended x → r (cs ++ x) = .ok (a, rest ++ x)

theorem local_pure (a : α) : Local (pure a) := by
  intro cs b rest h
  cases h
  exact ⟨List.suffix_rfl, fun _ _ => rfl⟩

theorem Local.bind {r : Reader α} {k : α → Reader β} (hr : Local r) (hk : ∀ a, Local (k a)) :
    Local (r >>= k) := by
  intro cs b rest h
  obtain ⟨a, mid, ha, hb⟩ := Reader.bind_eq_ok_iff.mp h
  obtain ⟨hmid, hra⟩ := hr cs a mid ha
  obtain ⟨hrest, hkb⟩ := hk a mid b rest hb
  refine ⟨hrest.trans hmid, fun x hx => ?_⟩
  rw [Reader.bind_of_ok (hra x hx)]
  exact hkb x hx

namespace Numeral

theorem takeWhile_append_of_stopsRun {p : Char → Bool} {x : List Char} (hx : StopsRun p x)
    (cs : List Char) : (cs ++ x).takeWhile p = cs.takeWhile p ∧
      (cs ++ x).dropWhile p = cs.dropWhile p ++ x := by
  induction cs with
  | nil =>
      cases x with
      | nil => exact ⟨rfl, rfl⟩
      | cons c x => simp [hx c rfl]
  | cons c cs ih =>
      rw [List.cons_append, List.takeWhile_cons, List.takeWhile_cons, List.dropWhile_cons,
        List.dropWhile_cons, ih.1, ih.2]
      split
      · exact ⟨rfl, rfl⟩
      · exact ⟨rfl, rfl⟩

theorem stopsRun_isDigit {x : List Char} (hx : Ended x) : StopsRun Char.isDigit x := by
  refine hx.stopsRun (List.forall_mem_cons.mpr ⟨rfl, ?_⟩)
  exact List.forall_mem_cons.mpr ⟨rfl, List.forall_mem_singleton.mpr rfl⟩

theorem local_someDigits (f : Fault) : Local (someDigits f) := by
  intro cs ds rest h
  cases cs with
  | nil => cases h
  | cons c cs =>
      by_cases hc : c.isDigit = true
      · have hread : ∀ y, someDigits f (c :: y) =
            .ok ((c :: y).takeWhile Char.isDigit, (c :: y).dropWhile Char.isDigit) := by
          intro y
          rw [someDigits, if_pos hc]
        rw [hread] at h
        cases h
        refine ⟨List.dropWhile_suffix _, fun x hx => ?_⟩
        obtain ⟨htake, hdrop⟩ := takeWhile_append_of_stopsRun (stopsRun_isDigit hx) (c :: cs)
        rw [← htake, ← hdrop]
        exact hread _
      · rw [someDigits, if_neg hc] at h
        cases h

theorem wholePart_of_head?_ne {f : Fault} {cs : List Char} (h : cs.head? ≠ some '0') :
    wholePart f cs = someDigits f cs := by
  unfold wholePart
  split
  · exact absurd rfl h
  · rfl

theorem local_wholePart (f : Fault) : Local (wholePart f) := by
  intro cs ds rest h
  rcases cs with _ | ⟨c, cs⟩
  · cases h
  by_cases hc : c = '0'
  · subst hc
    cases cs with
    | nil =>
        cases h
        refine ⟨List.nil_suffix, fun x hx => ?_⟩
        cases x with
        | nil => rfl
        | cons d x =>
            have hd : d.isDigit = false := stopsRun_isDigit hx d rfl
            simp [wholePart, hd]
    | cons d cs =>
        by_cases hd : d.isDigit = true
        · simp [wholePart, hd] at h
        · have hread : ∀ y, wholePart f ('0' :: d :: y) = .ok (['0'], d :: y) := by
            intro y
            simp [wholePart, hd]
          rw [hread] at h
          cases h
          exact ⟨List.suffix_cons _ _, fun x _ => hread _⟩
  · have hread : ∀ y, wholePart f (c :: y) = someDigits f (c :: y) :=
      fun y => wholePart_of_head?_ne (by simpa using hc)
    rw [hread] at h
    obtain ⟨hrest, hsome⟩ := local_someDigits f _ _ _ h
    exact ⟨hrest, fun x hx => (hread _).trans (hsome x hx)⟩

theorem local_fractionPart (f : Fault) : Local (fractionPart f) := by
  intro cs ds rest h
  by_cases hpoint : ∃ tail, cs = '.' :: tail
  · obtain ⟨tail, rfl⟩ := hpoint
    obtain ⟨hrest, hsome⟩ := local_someDigits f _ _ _ h
    exact ⟨hrest.trans (List.suffix_cons _ _), hsome⟩
  · have hread : ∀ y : List Char, y.head? ≠ some '.' → fractionPart f y = .ok ([], y) := by
      intro y hy
      unfold fractionPart
      split
      · exact absurd rfl hy
      · rfl
    have hcs : cs.head? ≠ some '.' := by
      intro hhead
      obtain ⟨tail, rfl⟩ := List.head?_eq_some_iff.mp hhead
      exact hpoint ⟨tail, rfl⟩
    rw [hread cs hcs] at h
    cases h
    refine ⟨List.suffix_rfl, fun x hx => hread _ ?_⟩
    cases cs with
    | nil =>
        intro hhead
        rcases hx '.' hhead with h | h | h <;> exact absurd h (by decide)
    | cons c cs => exact hcs

theorem local_exponentSign : Local exponentSign := by
  have hread : ∀ y : List Char, y.head? ≠ some '-' → y.head? ≠ some '+' →
      exponentSign y = .ok (false, y) := by
    intro y hminus hplus
    unfold exponentSign
    split
    · exact absurd rfl hminus
    · exact absurd rfl hplus
    · rfl
  intro cs minus rest h
  cases cs with
  | nil =>
      cases h
      refine ⟨List.suffix_rfl, fun x hx => hread x ?_ ?_⟩
      all_goals
        intro hhead
        rcases hx _ hhead with h | h | h <;> exact absurd h (by decide)
  | cons c cs =>
      by_cases hminus : c = '-'
      · subst hminus
        cases h
        exact ⟨List.suffix_cons _ _, fun _ _ => rfl⟩
      by_cases hplus : c = '+'
      · subst hplus
        cases h
        exact ⟨List.suffix_cons _ _, fun _ _ => rfl⟩
      · have hcons : ∀ y, exponentSign (c :: y) = .ok (false, c :: y) :=
          fun y => hread _ (by simpa using hminus) (by simpa using hplus)
        rw [hcons] at h
        cases h
        exact ⟨List.suffix_rfl, fun _ _ => hcons _⟩

theorem local_exponentPart (f : Fault) : Local (exponentPart f) := by
  have htail : Local (do
      let minus ← exponentSign
      let digits ← someDigits f
      return some (minus, digits) : Reader (Option (Bool × List Char))) :=
    local_exponentSign.bind fun _ => (local_someDigits f).bind fun _ => local_pure _
  intro cs e rest h
  cases cs with
  | nil =>
      cases h
      refine ⟨List.suffix_rfl, fun x hx => ?_⟩
      cases x with
      | nil => rfl
      | cons c x => rcases hx c rfl with rfl | rfl | rfl <;> rfl
  | cons c cs =>
      by_cases hc : c = 'e' ∨ c = 'E'
      · rw [exponentPart, if_pos hc] at h
        obtain ⟨hrest, hread⟩ := htail _ _ _ h
        refine ⟨hrest.trans (List.suffix_cons _ _), fun x hx => ?_⟩
        rw [List.cons_append, exponentPart, if_pos hc]
        exact hread x hx
      · have hread : ∀ y, exponentPart f (c :: y) = .ok (none, c :: y) := by
          intro y
          rw [exponentPart, if_neg hc]
        rw [hread] at h
        cases h
        exact ⟨List.suffix_rfl, fun _ _ => hread _⟩

theorem local_read (f : Fault) : Local (read f) :=
  (local_wholePart f).bind fun _ => (local_fractionPart f).bind fun _ =>
    (local_exponentPart f).bind fun _ => local_pure _

end Numeral

theorem local_numberRest (negative : Bool) : Local (numberRest negative) := by
  intro cs n rest h
  unfold numberRest at h
  split at h
  · cases h
  · next numeral mid hread =>
      obtain ⟨hsuffix, hlocal⟩ := Numeral.local_read _ _ _ _ hread
      cases hvalue : numeral.value negative with
      | error f => simp [hvalue] at h
      | ok m =>
          obtain ⟨rfl, rfl⟩ : m = n ∧ mid = rest := by simpa [hvalue] using h
          refine ⟨hsuffix, fun x hx => ?_⟩
          rw [numberRest, hlocal x hx]
          simp only [hvalue]

/-! ## Integers -/

namespace Numeral

theorem natValue_natText (n : Nat) : natValue (natText n) = n := by
  calc
    natValue (natText n) = Nat.ofDigitChars 10 (natText n) 0 := by
      simp only [natValue, digitValue, Nat.ofDigitChars_eq_foldl, Nat.mul_comm]
    _ = n := Nat.ofDigitChars_ten_toDigits

theorem head?_natText_ne {n : Nat} (hn : 0 < n) : (natText n).head? ≠ some '0' := by
  induction n using Nat.strongRecOn with
  | ind n ih =>
      rw [natText, Nat.toDigits_eq_if (by decide)]
      split
      · next hlt =>
          have hdigit : ∀ m < 10, 0 < m → Nat.digitChar m ≠ '0' := by decide
          simpa using hdigit n hlt hn
      · have hlower := ih (n / 10) (by omega) (by omega)
        rwa [List.head?_append_of_ne_nil _ Nat.toDigits_ne_nil]

theorem someDigits_natText (f : Fault) (n : Nat) :
    someDigits f (natText n) = .ok (natText n, []) := by
  obtain ⟨c, cs, hcs⟩ := List.exists_cons_of_ne_nil (Nat.toDigits_ne_nil (n := n) (b := 10))
  have hdigits : ∀ d ∈ c :: cs, d.isDigit = true := hcs ▸ fun _ => isDigit_of_mem_natText
  have htake : (c :: cs).takeWhile Char.isDigit = c :: cs := List.takeWhile_eq_self_iff.mpr hdigits
  have hdrop : (c :: cs).dropWhile Char.isDigit = [] := List.dropWhile_eq_nil_iff.mpr hdigits
  rw [natText, hcs, someDigits, if_pos (hdigits c List.mem_cons_self), htake, hdrop]

theorem read_natText (f : Fault) (n : Nat) :
    read f (natText n) = .ok (⟨natText n, [], none⟩, []) := by
  have hwhole : wholePart f (natText n) = .ok (natText n, []) := by
    rcases Nat.eq_zero_or_pos n with rfl | hn
    · rfl
    · rw [wholePart_of_head?_ne (head?_natText_ne hn), someDigits_natText]
  rw [read, Reader.bind_of_ok hwhole]
  rfl

end Numeral

theorem numberRest_natText (i : Int) (hi : integerRange i) :
    numberRest (decide (i < 0)) (natText i.natAbs) = .ok (.integer i hi, []) := by
  have habs : (if decide (i < 0) = true then -(i.natAbs : Int) else i.natAbs) = i := by
    by_cases hneg : i < 0
    · rw [if_pos (decide_eq_true hneg)]
      omega
    · rw [if_neg (by simpa using hneg)]
      omega
  have hsign : (decide (i < 0) && i == 0) = false := by
    simp only [Bool.and_eq_false_iff, decide_eq_false_iff_not, beq_eq_false_iff_ne]
    omega
  have hinteger : Numeral.integer? (decide (i < 0)) ⟨natText i.natAbs, [], none⟩ =
      some (.integer i hi) := by
    simp only [Numeral.integer?, Numeral.natValue_natText, habs, hsign, List.isEmpty_nil,
      Option.isNone_none, Bool.and_self, Bool.not_false, if_true, dif_pos hi]
  rw [numberRest, Numeral.read_natText]
  simp only [Numeral.value, hinteger]

/-! ## Numbers in a text -/

/-- The number, written and read on its own, is itself. -/
def Number.ReadsBack (n : Number) : Prop :=
  readAll (Reader.value 0) (String.ofList n.text) = .ok (.number n)

def Number.isResult (n : Number) : Except Fault Json → Bool
  | .ok (.number m) => m == n
  | _ => false

theorem Number.isResult_iff {n : Number} {r : Except Fault Json} :
    n.isResult r = true ↔ r = .ok (.number n) := by
  unfold isResult
  split <;> simp_all

instance (n : Number) : Decidable n.ReadsBack :=
  decidable_of_iff (n.isResult (readAll (Reader.value 0) (String.ofList n.text)) = true)
    Number.isResult_iff

theorem isBlank_of_kindOf? {c : Char} {k : Kind} (h : kindOf? c = some k) : isBlank c = false := by
  rw [← Bool.not_eq_true]
  intro hblank
  simp only [isBlank, Bool.or_eq_true, beq_iff_eq] at hblank
  rcases hblank with ((rfl | rfl) | rfl) | rfl <;> cases h

theorem isBlank_of_isNumeralChar {c : Char} (hc : isNumeralChar c = true) : isBlank c = false :=
  isBlank_of_kindOf? (if_pos hc)

theorem head_minus (cs : List Char) :
    head ('-' :: cs) = (numberRest true cs).map fun r => (.scalar (.number r.1), r.2) :=
  Reader.map_eq (fun n => Head.scalar (.number n)) (numberRest true) cs

theorem head_digit {c : Char} (hc : c.isDigit = true) (cs : List Char) :
    head (c :: cs) = (numberRest false (c :: cs)).map fun r => (.scalar (.number r.1), r.2) := by
  have hblank : isBlank c = false := isBlank_of_isNumeralChar (isNumeralChar_of_isDigit hc)
  rw [head, Reader.bind_of_ok (peek_cons hblank cs),
    ← Reader.map_eq (fun n => Head.scalar (.number n)) (numberRest false)]
  refine congrFun ?_ (c :: cs)
  split
  case h_1 heq => cases heq
  case h_9 d heq =>
    obtain rfl := Option.some.inj heq
    exact if_pos hc
  all_goals
    next heq =>
      obtain rfl := Option.some.inj heq
      exact absurd hc (by decide)

/-- A numeral is a minus and a number after it, or a number without a sign. -/
theorem exists_numberRest_of_head {c : Char} {cs rest : List Char} {n : Number}
    (hc : isNumeralChar c = true) (h : head (c :: cs) = .ok (.scalar (.number n), rest)) :
    ∃ negative tail, numberRest negative tail = .ok (n, rest) ∧ tail <:+ c :: cs ∧
      ∀ x, head (c :: cs ++ x) =
        (numberRest negative (tail ++ x)).map fun r => (.scalar (.number r.1), r.2) := by
  have hmap : ∀ negative tail, (numberRest negative tail).map
      (fun r => (Head.scalar (.number r.1), r.2)) = .ok (.scalar (.number n), rest) →
        numberRest negative tail = .ok (n, rest) := by
    intro negative tail hread
    cases hnumber : numberRest negative tail with
    | error f => simp [hnumber, Except.map] at hread
    | ok r => simpa [hnumber, Except.map, Prod.ext_iff] using hread
  by_cases hdigit : c.isDigit = true
  · rw [head_digit hdigit] at h
    exact ⟨false, c :: cs, hmap _ _ h, List.suffix_rfl, fun x => head_digit hdigit _⟩
  by_cases hminus : c = '-'
  · subst hminus
    rw [head_minus] at h
    exact ⟨true, cs, hmap _ _ h, List.suffix_cons _ _, fun x => head_minus _⟩
  · have hother : c = '+' ∨ c = '.' ∨ c = 'e' := by
      simpa [isNumeralChar, hdigit, hminus, or_assoc] using hc
    rcases hother with rfl | rfl | rfl <;> cases h

theorem Number.ReadsBack.reads_head {n : Number} (h : n.ReadsBack) :
    Reads head n.text (.scalar (.number n)) := by
  obtain ⟨rest, hhead, hblank⟩ : ∃ rest, head n.text = .ok (.scalar (.number n), rest) ∧
      rest.all isBlank = true := by
    unfold ReadsBack readAll at h
    rw [String.toList_ofList] at h
    split at h
    · cases h
    · next j rest hread =>
        obtain ⟨hd, mid, hhead, hvalue⟩ := Reader.bind_eq_ok_iff.mp hread
        split at h
        · next hblank =>
            cases h
            cases hd with
            | scalar j =>
                cases hvalue
                exact ⟨_, hhead, hblank⟩
            | list | object => cases hvalue
        · cases h
  obtain ⟨c, cs, htext⟩ := List.exists_cons_of_ne_nil n.text_ne_nil
  have hc : ∀ d ∈ c :: cs, isNumeralChar d = true := htext ▸ fun _ => isNumeralChar_of_mem_text
  rw [htext] at hhead ⊢
  obtain ⟨negative, tail, hread, htail, happend⟩ :=
    exists_numberRest_of_head (hc c List.mem_cons_self) hhead
  obtain ⟨hrest, hlocal⟩ := local_numberRest _ _ _ _ hread
  -- What is left has no character of a numeral, but the whole text has no other.
  obtain rfl : rest = [] := by
    refine List.eq_nil_iff_forall_not_mem.mpr fun d hd => ?_
    have hnumeral := hc d ((hrest.trans htail).mem hd)
    have := List.all_eq_true.mp hblank d hd
    simp [isBlank_of_isNumeralChar hnumeral] at this
  intro x hx
  rw [happend, hlocal x hx]
  rfl

theorem readsBack_integer (i : Int) (hi : integerRange i) : (Number.integer i hi).ReadsBack := by
  have hread := numberRest_natText i hi
  have hhead : head (Number.integer i hi).text = .ok (.scalar (.number (.integer i hi)), []) := by
    rw [Number.text]
    by_cases hneg : i < 0
    · rw [decide_eq_true hneg] at hread
      rw [if_pos hneg, List.cons_append, head_minus, List.nil_append, hread]
      rfl
    · rw [decide_eq_false hneg] at hread
      obtain ⟨c, cs, hcs⟩ :=
        List.exists_cons_of_ne_nil (Nat.toDigits_ne_nil (n := i.natAbs) (b := 10))
      have hc : c.isDigit = true := isDigit_of_mem_natText (hcs ▸ List.mem_cons_self)
      rw [if_neg hneg, List.nil_append, natText, hcs, head_digit hc, ← hcs]
      rw [natText] at hread
      rw [hread]
      rfl
  unfold Number.ReadsBack readAll
  rw [String.toList_ofList, Reader.value, Reader.bind_of_ok hhead]
  rfl

end ServiceSchema.Json
