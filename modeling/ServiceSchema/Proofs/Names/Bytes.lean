import Mathlib.Data.String.Basic
/-!
# The order of names and the order of their bytes

Names are compared character by character.  UTF-8 keeps that order: the encodings of two different
characters differ in some byte, and the first such byte decides as the characters do.
-/

namespace ServiceSchema.Names

def bytes (n : String) : List UInt8 := n.toUTF8.data.toList

theorem bytes_eq_flatMap (n : String) : bytes n = n.toList.flatMap String.utf8EncodeChar := by
  rw [bytes, String.toUTF8_eq_toByteArray, ← String.utf8Encode_toList, List.utf8Encode,
    List.toList_data_toByteArray]

/-- Two byte strings differ before either ends, and the first has the smaller byte there. -/
inductive Below : List UInt8 → List UInt8 → Prop where
  | head {a b : UInt8} {as bs : List UInt8} : a < b → Below (a :: as) (b :: bs)
  | tail {a : UInt8} {as bs : List UInt8} : Below as bs → Below (a :: as) (a :: bs)

/-- What follows the difference does not matter. -/
theorem Below.append_lt {as bs : List UInt8} (h : Below as bs) (cs ds : List UInt8) :
    as ++ cs < bs ++ ds := by
  induction h with
  | head hab => exact List.cons_lt_cons_iff.mpr (Or.inl hab)
  | tail _ ih => exact List.cons_lt_cons_iff.mpr (Or.inr ⟨rfl, ih⟩)

theorem ofNat_lt_ofNat {x y : Nat} (hxy : x < y) (hy : y < 256) :
    UInt8.ofNat x < UInt8.ofNat y := by
  rw [UInt8.lt_iff_toNat_lt, UInt8.toNat_ofNat', UInt8.toNat_ofNat']
  omega

theorem below_cons {x y : Nat} {as bs : List UInt8} (hy : y < 256)
    (h : x < y ∨ x = y ∧ Below as bs) :
    Below (UInt8.ofNat x :: as) (UInt8.ofNat y :: bs) := by
  rcases h with hxy | ⟨rfl, htail⟩
  · exact .head (ofNat_lt_ofNat hxy hy)
  · exact .tail htail

/-! ## Characters

In an encoding of several bytes each byte is a digit of the character with a mark added, the most
significant digit first.
-/

/-- The digit of base `m` at the place value `p` decides, unless it is the same; then the part below
`p` does. -/
theorem digit_lt_or_eq {p m v w : Nat} (h : v % (p * m) < w % (p * m)) :
    v / p % m < w / p % m ∨ v / p % m = w / p % m ∧ v % p < w % p := by
  rw [Nat.mod_mul, Nat.mod_mul] at h
  rcases lt_trichotomy (v / p % m) (w / p % m) with hlt | heq | hgt
  · exact Or.inl hlt
  · rw [heq] at h
    exact Or.inr ⟨heq, Nat.lt_of_add_lt_add_right h⟩
  · have hp : 0 < p := Nat.pos_of_ne_zero fun hzero => by simp [hzero] at hgt
    have hback : w % p + p * (w / p % m) < v % p + p * (v / p % m) :=
      calc w % p + p * (w / p % m) < p + p * (w / p % m) :=
            Nat.add_lt_add_right (Nat.mod_lt w hp) _
        _ = p * (w / p % m + 1) := by rw [Nat.mul_add_one, Nat.add_comm]
        _ ≤ p * (v / p % m) := Nat.mul_le_mul_left p hgt
        _ ≤ v % p + p * (v / p % m) := Nat.le_add_left _ _
    exact absurd h hback.asymm

theorem below_digit {p m k v w : Nat} {as bs : List UInt8} (hm : 0 < m) (hk : m + k ≤ 256)
    (h : v % (p * m) < w % (p * m)) (htail : v % p < w % p → Below as bs) :
    Below (.ofNat (v / p % m + k) :: as) (.ofNat (w / p % m + k) :: bs) := by
  have hdigit : w / p % m < m := Nat.mod_lt _ hm
  apply below_cons (by omega)
  rcases digit_lt_or_eq h with hlt | ⟨heq, hrest⟩
  · exact Or.inl (Nat.add_lt_add_right hlt k)
  · exact Or.inr ⟨by rw [heq], htail hrest⟩

theorem below_one {v w : Nat} (h : v % 64 < w % 64) :
    Below [.ofNat (v % 0x40 + 0x80)] [.ofNat (w % 0x40 + 0x80)] :=
  below_cons (by omega) (Or.inl (Nat.add_lt_add_right h 0x80))

theorem below_two {v w : Nat} (h : v % 4096 < w % 4096) :
    Below [.ofNat (v / 64 % 0x40 + 0x80), .ofNat (v % 0x40 + 0x80)]
      [.ofNat (w / 64 % 0x40 + 0x80), .ofNat (w % 0x40 + 0x80)] :=
  below_digit (by omega) (by omega) h below_one

theorem below_three {v w : Nat} (h : v % 262144 < w % 262144) :
    Below
      [.ofNat (v / 4096 % 0x40 + 0x80), .ofNat (v / 64 % 0x40 + 0x80), .ofNat (v % 0x40 + 0x80)]
      [.ofNat (w / 4096 % 0x40 + 0x80), .ofNat (w / 64 % 0x40 + 0x80), .ofNat (w % 0x40 + 0x80)] :=
  below_digit (by omega) (by omega) h below_two

theorem below_utf8EncodeChar {c d : Char} (h : c < d) :
    Below (String.utf8EncodeChar c) (String.utf8EncodeChar d) := by
  have hcd : c.val.toNat < d.val.toNat := h
  have hd : d.val.toNat < 0x110000 := by
    have hvalid := d.valid
    unfold UInt32.isValidChar Nat.isValidChar at hvalid
    omega
  unfold String.utf8EncodeChar
  -- Longer encodings start with greater bytes, so only equal lengths are compared digit by digit.
  by_cases hd1 : d.val.toNat ≤ 0x7f
  · simp only [hd1, if_true, show c.val.toNat ≤ 0x7f by omega]
    exact below_cons (by omega) (Or.inl hcd)
  by_cases hd2 : d.val.toNat ≤ 0x7ff
  · simp only [hd1, hd2, if_true, if_false]
    by_cases hc1 : c.val.toNat ≤ 0x7f
    · simp only [hc1, if_true]
      exact below_cons (by omega) (Or.inl (by omega))
    · simp only [hc1, if_true, if_false, show c.val.toNat ≤ 0x7ff by omega]
      exact below_digit (by omega) (by omega) (by omega) below_one
  by_cases hd3 : d.val.toNat ≤ 0xffff
  · simp only [hd1, hd2, hd3, if_true, if_false]
    by_cases hc1 : c.val.toNat ≤ 0x7f
    · simp only [hc1, if_true]
      exact below_cons (by omega) (Or.inl (by omega))
    by_cases hc2 : c.val.toNat ≤ 0x7ff
    · simp only [hc1, hc2, if_true, if_false]
      exact below_cons (by omega) (Or.inl (by omega))
    · simp only [hc1, hc2, if_true, if_false, show c.val.toNat ≤ 0xffff by omega]
      exact below_digit (by omega) (by omega) (by omega) below_two
  · simp only [hd1, hd2, hd3, if_false]
    by_cases hc1 : c.val.toNat ≤ 0x7f
    · simp only [hc1, if_true]
      exact below_cons (by omega) (Or.inl (by omega))
    by_cases hc2 : c.val.toNat ≤ 0x7ff
    · simp only [hc1, hc2, if_true, if_false]
      exact below_cons (by omega) (Or.inl (by omega))
    by_cases hc3 : c.val.toNat ≤ 0xffff
    · simp only [hc1, hc2, hc3, if_true, if_false]
      exact below_cons (by omega) (Or.inl (by omega))
    · simp only [hc1, hc2, hc3, if_false]
      exact below_digit (by omega) (by omega) (by omega) below_three

/-! ## Names -/

theorem flatMap_utf8EncodeChar_lt {cs ds : List Char} (h : cs < ds) :
    cs.flatMap String.utf8EncodeChar < ds.flatMap String.utf8EncodeChar := by
  induction cs generalizing ds with
  | nil =>
      cases ds with
      | nil => exact absurd h (List.lt_irrefl [])
      | cons d ds =>
          rw [List.flatMap_nil, List.flatMap_cons]
          obtain ⟨b, bs, hbs⟩ := List.exists_cons_of_ne_nil (String.utf8EncodeChar_ne_nil (c := d))
          rw [hbs]
          exact List.nil_lt_cons b _
  | cons c cs ih =>
      cases ds with
      | nil => exact absurd h (List.not_lt_nil _)
      | cons d ds =>
          rw [List.flatMap_cons, List.flatMap_cons]
          rcases List.cons_lt_cons_iff.mp h with hcd | ⟨rfl, htail⟩
          · exact (below_utf8EncodeChar hcd).append_lt _ _
          · exact List.append_left_lt (ih htail)

theorem bytes_lt_bytes_of_lt {n m : String} (h : n < m) : bytes n < bytes m := by
  rw [bytes_eq_flatMap, bytes_eq_flatMap]
  exact flatMap_utf8EncodeChar_lt h

/-- Names are ordered as their bytes are. -/
theorem bytes_lt_bytes_iff {n m : String} : bytes n < bytes m ↔ n < m := by
  constructor
  · intro h
    rcases lt_trichotomy n m with hlt | rfl | hgt
    · exact hlt
    · exact absurd h (List.lt_irrefl _)
    · exact absurd h (List.lt_asymm (bytes_lt_bytes_of_lt hgt))
  · exact bytes_lt_bytes_of_lt

end ServiceSchema.Names
