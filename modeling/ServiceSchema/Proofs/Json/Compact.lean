import ServiceSchema.Json.Printer
import ServiceSchema.Proofs.Text.Tokens
/-!
# Compact text determines a value

The first character of a compact text tells the kind of the value, and numbers are written with
characters of a class of their own, so that no value's text goes on with another's.  Numbers are
compared by their text.
-/

namespace ServiceSchema

open Text (quoted quoted_append_inj StopsRun run_append_inj separated_append_inj map_eq_of_forall₂)

namespace Json

theorem induction_nested {motive : Json → Prop} (null : motive null) (bool : ∀ b, motive (bool b))
    (number : ∀ n, motive (number n)) (string : ∀ s, motive (string s))
    (array : ∀ js, (∀ j ∈ js, motive j) → motive (array js))
    (object : ∀ es, (∀ e ∈ es, motive e.2) → motive (object es)) (j : Json) : motive j :=
  @Json.rec motive (fun js => ∀ j ∈ js, motive j) (fun es => ∀ e ∈ es, motive e.2)
    (fun e => motive e.2) null bool number string array object (List.forall_mem_nil _)
    (fun _ _ hj hjs => List.forall_mem_cons.mpr ⟨hj, hjs⟩) (List.forall_mem_nil _)
    (fun _ _ he hes => List.forall_mem_cons.mpr ⟨he, hes⟩) (fun _ _ hj => hj) j

mutual

/-- Equality of values, numbers being compared by their text. -/
inductive Alike : Json → Json → Prop where
  | null : Alike null null
  | bool (b : Bool) : Alike (bool b) (bool b)
  | number {m n : Number} : m.text = n.text → Alike (number m) (number n)
  | string (s : String) : Alike (string s) (string s)
  | array {js ks : List Json} : List.Forall₂ Alike js ks → Alike (array js) (array ks)
  | object {es fs : List (String × Json)} :
    List.Forall₂ AlikeEntry es fs → Alike (object es) (object fs)

inductive AlikeEntry : String × Json → String × Json → Prop where
  | mk {e f : String × Json} : e.1 = f.1 → Alike e.2 f.2 → AlikeEntry e f

end

@[simp] theorem alike_number_iff {m n : Number} :
    (number m).Alike (number n) ↔ m.text = n.text :=
  ⟨fun h => by cases h with | number hmn => exact hmn, .number⟩

@[simp] theorem alike_bool_iff {b c : Bool} : (bool b).Alike (bool c) ↔ b = c :=
  ⟨fun h => by cases h; rfl, fun h => h ▸ .bool b⟩

@[simp] theorem alike_string_iff {s t : String} : (string s).Alike (string t) ↔ s = t :=
  ⟨fun h => by cases h; rfl, fun h => h ▸ .string s⟩

@[simp] theorem alike_array_iff {js ks : List Json} :
    (array js).Alike (array ks) ↔ List.Forall₂ Alike js ks :=
  ⟨fun h => by cases h with | array hitems => exact hitems, .array⟩

@[simp] theorem alike_object_iff {es fs : List (String × Json)} :
    (object es).Alike (object fs) ↔ List.Forall₂ AlikeEntry es fs :=
  ⟨fun h => by cases h with | object hentries => exact hentries, .object⟩

@[simp] theorem alikeEntry_iff {e f : String × Json} :
    AlikeEntry e f ↔ e.1 = f.1 ∧ e.2.Alike f.2 :=
  ⟨fun ⟨hkey, hvalue⟩ => ⟨hkey, hvalue⟩, fun ⟨hkey, hvalue⟩ => ⟨hkey, hvalue⟩⟩

/-! ## Numbers -/

def isNumeralChar (c : Char) : Bool :=
  c.isDigit || c == '-' || c == '+' || c == '.' || c == 'e'

theorem isNumeralChar_of_isDigit {c : Char} (h : c.isDigit = true) : isNumeralChar c = true := by
  simp [isNumeralChar, h]

end Json

namespace Decimal

open Json (isNumeralChar isNumeralChar_of_isDigit)

theorem isDigit_of_mem_toDigits {n : Nat} {c : Char} (h : c ∈ Nat.toDigits 10 n) :
    c.isDigit = true :=
  Nat.isDigit_of_mem_toDigits (by decide) (by decide) h

theorem Form.isDigit_of_mem_ofCount {count : Nat} {exponent : Int} {c : Char}
    (h : c ∈ (Form.ofCount count exponent).digits) : c.isDigit = true := by
  have hmem : c ∈ (Nat.toDigits 10 count).reverse :=
    (List.dropWhile_sublist _).mem (List.mem_reverse.mp h)
  exact isDigit_of_mem_toDigits (List.mem_reverse.mp hmem)

theorem Binary64.isDigit_of_mem_shortestFrom {r : Nat} {top : Int} {tries used : Nat} {c : Char}
    (h : c ∈ (shortestFrom r top tries used).digits) : c.isDigit = true := by
  induction tries generalizing used with
  | zero => exact Form.isDigit_of_mem_ofCount h
  | succ tries ih =>
      unfold shortestFrom at h
      split at h
      · exact Form.isDigit_of_mem_ofCount h
      · exact ih h

namespace Layout

variable {d : Form} {c : Char}

theorem isNumeralChar_of_mem_zeros {n : Nat} (h : c ∈ zeros n) : isNumeralChar c = true := by
  rw [List.eq_of_mem_replicate h]
  rfl

theorem isNumeralChar_of_mem_plain (hd : ∀ c ∈ d.digits, c.isDigit = true) (h : c ∈ plain d) :
    isNumeralChar c = true := by
  have hdigits : ∀ c ∈ d.digits, isNumeralChar c = true :=
    fun c hc => isNumeralChar_of_isDigit (hd c hc)
  unfold plain at h
  split at h
  · simp only [List.mem_append, List.mem_cons, List.not_mem_nil, or_false] at h
    rcases h with ((rfl | rfl) | h) | h
    · rfl
    · rfl
    · exact isNumeralChar_of_mem_zeros h
    · exact hdigits c h
  · dsimp only at h
    split at h
    · simp only [List.mem_append, List.mem_cons, List.not_mem_nil, or_false] at h
      rcases h with (h | h) | rfl | rfl
      · exact hdigits c h
      · exact isNumeralChar_of_mem_zeros h
      · rfl
      · rfl
    · rcases List.mem_append.mp h with h | h
      · exact hdigits c (List.mem_of_mem_take h)
      · rcases List.mem_cons.mp h with rfl | h
        · rfl
        · exact hdigits c (List.mem_of_mem_drop h)

theorem isNumeralChar_of_mem_scientific (hd : ∀ c ∈ d.digits, c.isDigit = true)
    (h : c ∈ scientific d) : isNumeralChar c = true := by
  have hdigits : ∀ c ∈ d.digits, isNumeralChar c = true :=
    fun c hc => isNumeralChar_of_isDigit (hd c hc)
  unfold scientific at h
  rcases List.mem_append.mp h with h | h
  · split at h
    · exact absurd h List.not_mem_nil
    · next heq => exact hdigits c (heq ▸ h)
    · next heq =>
        rw [heq] at hdigits
        rcases List.mem_cons.mp h with rfl | h
        · exact hdigits _ List.mem_cons_self
        rcases List.mem_cons.mp h with rfl | h
        · rfl
        · exact hdigits c (List.mem_cons_of_mem _ h)
  · rcases List.mem_cons.mp h with rfl | h
    · rfl
    rcases List.mem_cons.mp h with rfl | h
    · split <;> rfl
    · exact isNumeralChar_of_isDigit (isDigit_of_mem_toDigits h)

theorem scientific_ne_nil : scientific d ≠ [] := by
  simp [scientific]

theorem plain_ne_nil : plain d ≠ [] := by
  unfold plain
  split
  · simp
  · dsimp only
    split <;> simp

end Layout

end Decimal

namespace Json

open Decimal (Layout Binary64)

theorem isDigit_of_mem_natText {n : Nat} {c : Char} (h : c ∈ natText n) : c.isDigit = true :=
  Decimal.isDigit_of_mem_toDigits h

theorem natText_injective : Function.Injective natText := by
  intro m n h
  calc
    m = Nat.ofDigitChars 10 (natText m) 0 := Nat.ofDigitChars_ten_toDigits.symm
    _ = Nat.ofDigitChars 10 (natText n) 0 := by rw [h]
    _ = n := Nat.ofDigitChars_ten_toDigits

namespace Number

theorem isNumeralChar_of_mem_text {n : Number} {c : Char} (h : c ∈ n.text) :
    isNumeralChar c = true := by
  have hsign : ∀ {b : Prop} [Decidable b],
      c ∈ (if b then ['-'] else []) → isNumeralChar c = true := by
    intro b _ h
    split at h
    · rw [List.mem_singleton.mp h]
      rfl
    · exact absurd h List.not_mem_nil
  cases n with
  | integer i _ =>
      rcases List.mem_append.mp h with h | h
      · exact hsign h
      · exact isNumeralChar_of_isDigit (isDigit_of_mem_natText h)
  | float x =>
      have hdigits : ∀ c ∈ x.shortest.digits, c.isDigit = true :=
        fun _ => Binary64.isDigit_of_mem_shortestFrom
      rcases List.mem_append.mp h with h | h
      · exact hsign h
      · split at h
        · simp only [List.mem_cons, List.not_mem_nil, or_false] at h
          rcases h with rfl | rfl | rfl <;> rfl
        · unfold Layout.decimal at h
          split at h
          · exact Layout.isNumeralChar_of_mem_plain hdigits h
          · exact Layout.isNumeralChar_of_mem_scientific hdigits h

theorem text_ne_nil (n : Number) : n.text ≠ [] := by
  cases n with
  | integer i _ => exact List.append_ne_nil_of_right_ne_nil _ Nat.toDigits_ne_nil
  | float x =>
      refine List.append_ne_nil_of_right_ne_nil _ ?_
      split
      · simp
      · unfold Layout.decimal
        split
        · exact Layout.plain_ne_nil
        · exact Layout.scientific_ne_nil

theorem text_append_inj {m n : Number} {x y : List Char} (hx : StopsRun isNumeralChar x)
    (hy : StopsRun isNumeralChar y) (h : m.text ++ x = n.text ++ y) : m.text = n.text ∧ x = y :=
  run_append_inj (fun _ => isNumeralChar_of_mem_text) (fun _ => isNumeralChar_of_mem_text) hx hy h

end Number

/-! ## Kinds -/

inductive Kind where
  | null
  | bool
  | number
  | string
  | array
  | object
deriving DecidableEq

def kind : Json → Kind
  | null => .null
  | bool _ => .bool
  | number _ => .number
  | string _ => .string
  | array _ => .array
  | object _ => .object

def kindOf? (c : Char) : Option Kind :=
  if isNumeralChar c then some .number
  else if c = 'n' then some .null
  else if c = 't' ∨ c = 'f' then some .bool
  else if c = '"' then some .string
  else if c = '[' then some .array
  else if c = '\x7b' then some .object
  else none

theorem kindOf?_head?_compact (j : Json) (x : List Char) :
    (j.compact ++ x).head?.bind kindOf? = some j.kind := by
  cases j with
  | null => rfl
  | bool b => cases b <;> rfl
  | number n =>
      obtain ⟨c, cs, hn⟩ := List.exists_cons_of_ne_nil n.text_ne_nil
      have hc : isNumeralChar c = true :=
        Number.isNumeralChar_of_mem_text (hn ▸ List.mem_cons_self)
      simp [compact, hn, kindOf?, hc, kind]
  | string s => rfl
  | array items => rfl
  | object entries => rfl

theorem kind_eq_of_compact_append_eq {j k : Json} {x y : List Char}
    (h : j.compact ++ x = k.compact ++ y) : j.kind = k.kind := by
  have hkinds : some j.kind = some k.kind := by
    rw [← kindOf?_head?_compact j x, ← kindOf?_head?_compact k y, h]
  exact Option.some.inj hkinds

theorem head?_compact_append_ne {c : Char} (hc : kindOf? c = none) (j : Json) (x : List Char) :
    (j.compact ++ x).head? ≠ some c := by
  intro h
  have := kindOf?_head?_compact j x
  rw [h, Option.bind_some, hc] at this
  exact absurd this (by simp)

/-! ## Lists -/

theorem compactItems_eq (js : List Json) :
    compactItems js = [','].intercalate (js.map compact) := by
  induction js with
  | nil => rfl
  | cons j js ih =>
      cases js with
      | nil => simp [compactItems]
      | cons k ks =>
          rw [List.map_cons, List.map_cons, List.intercalate_cons_cons, ← List.map_cons, ← ih,
            List.append_assoc]
          rfl

def entryText (e : String × Json) : List Char :=
  quoted e.1 ++ ':' :: e.2.compact

theorem compactEntries_eq (es : List (String × Json)) :
    compactEntries es = [','].intercalate (es.map entryText) := by
  induction es with
  | nil => rfl
  | cons e es ih =>
      cases es with
      | nil => simp [compactEntries, entryText]
      | cons f fs =>
          rw [List.map_cons, List.map_cons, List.intercalate_cons_cons, ← List.map_cons, ← ih,
            List.append_assoc]
          simp [compactEntries, entryText]

/-- A value's compact text determines the value and where the text ends, if no number goes on. -/
theorem compact_append_inj {j k : Json} {x y : List Char} (hx : StopsRun isNumeralChar x)
    (hy : StopsRun isNumeralChar y) (h : j.compact ++ x = k.compact ++ y) :
    j.Alike k ∧ x = y := by
  induction j using induction_nested generalizing k x y with
  | null =>
      cases k with
      | null => exact ⟨.null, List.append_cancel_left h⟩
      | _ => exact absurd (kind_eq_of_compact_append_eq h) (by simp [kind])
  | bool b =>
      cases k with
      | bool c =>
          cases b <;> cases c
          case false.false | true.true => exact ⟨.bool _, List.append_cancel_left h⟩
          case false.true | true.false => simp [compact, boolText] at h
      | _ => exact absurd (kind_eq_of_compact_append_eq h) (by simp [kind])
  | number m =>
      cases k with
      | number n =>
          obtain ⟨hmn, hxy⟩ := Number.text_append_inj hx hy h
          exact ⟨.number hmn, hxy⟩
      | _ => exact absurd (kind_eq_of_compact_append_eq h) (by simp [kind])
  | string s =>
      cases k with
      | string t =>
          obtain ⟨rfl, hxy⟩ := quoted_append_inj h
          exact ⟨.string s, hxy⟩
      | _ => exact absurd (kind_eq_of_compact_append_eq h) (by simp [kind])
  | array js ih =>
      cases k with
      | array ks =>
          simp only [compact, compactItems_eq, List.cons_append, List.append_assoc,
            List.cons.injEq, true_and, List.nil_append] at h
          obtain ⟨hitems, hxy⟩ := separated_append_inj (StopsRun isNumeralChar)
            (fun _ => .cons rfl) (fun _ => .cons rfl) (fun z => by simp)
            (fun i z _ => head?_compact_append_ne rfl i z)
            (fun i hi _ _ _ _ hv hw heq => ih i hi hv hw heq) h
          exact ⟨.array hitems, hxy⟩
      | _ => exact absurd (kind_eq_of_compact_append_eq h) (by simp [kind])
  | object es ih =>
      cases k with
      | object fs =>
          simp only [compact, compactEntries_eq, List.cons_append, List.append_assoc,
            List.cons.injEq, true_and, List.nil_append] at h
          have hentry : ∀ e ∈ es, ∀ f ∈ fs, ∀ v w, StopsRun isNumeralChar v →
              StopsRun isNumeralChar w → entryText e ++ v = entryText f ++ w →
                AlikeEntry e f ∧ v = w := by
            intro e he f _ v w hv hw hef
            simp only [entryText, List.append_assoc] at hef
            obtain ⟨hkey, hvalue⟩ := quoted_append_inj hef
            obtain ⟨halike, hvw⟩ := ih e he hv hw (List.tail_eq_of_cons_eq hvalue)
            exact ⟨.mk hkey halike, hvw⟩
          obtain ⟨hentries, hxy⟩ := separated_append_inj (StopsRun isNumeralChar)
            (fun _ => .cons rfl) (fun _ => .cons rfl) (fun z => by simp)
            (fun e z _ => by simp [entryText, quoted]) hentry h
          exact ⟨.object hentries, hxy⟩
      | _ => exact absurd (kind_eq_of_compact_append_eq h) (by simp [kind])

theorem Alike.compact_eq {j k : Json} (h : j.Alike k) : j.compact = k.compact := by
  induction j using induction_nested generalizing k with
  | null | bool | string =>
      cases h
      rfl
  | number m =>
      cases h with
      | number hmn => exact hmn
  | array js ih =>
      cases h with
      | array hitems =>
          rw [compact, compact, compactItems_eq, compactItems_eq,
            map_eq_of_forall₂ (fun i hi _ => ih i hi) hitems]
  | object es ih =>
      cases h with
      | object hentries =>
          have hentry : ∀ e ∈ es, ∀ f, AlikeEntry e f → entryText e = entryText f := by
            rintro e he f ⟨hkey, hvalue⟩
            rw [entryText, entryText, hkey, ih e he hvalue]
          rw [compact, compact, compactEntries_eq, compactEntries_eq,
            map_eq_of_forall₂ hentry hentries]

end Json

end ServiceSchema
