import ServiceSchema.Json.Value
import ServiceSchema.Proofs.Text.Tokens
/-!
# What readers do

Two judgements about a reader: that it passes a given text and gives a given value, whatever ends
the value behind the text, and that whatever it gives has a property.  Both are followed through
the steps of a reader.
-/

namespace ServiceSchema.Json

variable {α β : Type}

/-- A text that ends the value before it: nothing, or what stands after an item or an entry. -/
def Ended (x : List Char) : Prop := ∀ c ∈ x.head?, c = ',' ∨ c = ']' ∨ c = '\x7d'

theorem ended_nil : Ended [] := by
  intro c hc
  cases hc

theorem ended_cons {c : Char} (hc : c = ',' ∨ c = ']' ∨ c = '\x7d') (x : List Char) :
    Ended (c :: x) := by
  intro d hd
  rwa [← Option.some.inj hd]

theorem Ended.stopsRun {p : Char → Bool} {x : List Char} (hx : Ended x)
    (hp : ∀ c ∈ [',', ']', '\x7d'], p c = false) : Text.StopsRun p x := by
  intro c hc
  exact hp c (by simpa using hx c hc)

namespace Reader

variable {r : Reader α} {k : α → Reader β} {cs rest : List Char}

theorem bind_of_ok {a : α} (h : r cs = .ok (a, rest)) : (r >>= k) cs = k a rest := by
  change (r cs >>= fun read => k read.1 read.2) = _
  rw [h]
  rfl

theorem bind_eq_ok_iff {b : β} :
    (r >>= k) cs = .ok (b, rest) ↔
      ∃ a mid, r cs = .ok (a, mid) ∧ k a mid = .ok (b, rest) := by
  cases h : r cs with
  | error f =>
      change (r cs >>= fun read => k read.1 read.2) = _ ↔ _
      rw [h]
      constructor
      · intro hread
        cases hread
      · rintro ⟨a, mid, heq, -⟩
        cases heq
  | ok read =>
      rw [bind_of_ok h]
      constructor
      · exact fun hk => ⟨_, _, rfl, hk⟩
      · rintro ⟨a, mid, heq, hk⟩
        cases heq
        exact hk

theorem map_eq (f : α → β) (r : Reader α) (cs : List Char) :
    (do return f (← r) : Reader β) cs = (r cs).map fun read => (f read.1, read.2) := by
  cases h : r cs with
  | error e =>
      change (r cs >>= _) = _
      rw [h]
      rfl
  | ok read => exact bind_of_ok h

end Reader

theorem peek_cons {c : Char} (hc : isBlank c = false) (cs : List Char) :
    peek (c :: cs) = .ok (some c, c :: cs) := by
  rw [peek, List.dropWhile_cons, hc]
  rfl

/-! ## Passing a text -/

/-- The reader passes the text and gives `a`, whatever ends the value behind the text. -/
def Reads (r : Reader α) (text : List Char) (a : α) : Prop :=
  ∀ x, Ended x → r (text ++ x) = .ok (a, x)

theorem Reads.map {r : Reader α} {text : List Char} {a : α} (h : Reads r text a) (f : α → β) :
    Reads (do return f (← r)) text (f a) := by
  intro x hx
  rw [Reader.map_eq, h x hx]
  rfl

/-! ## Properties of what is read -/

/-- Whatever the reader gives has the property. -/
def Yields (r : Reader α) (P : α → Prop) : Prop := ∀ cs a rest, r cs = .ok (a, rest) → P a

variable {r : Reader α} {P : α → Prop} {Q : β → Prop}

theorem Yields.bind {k : α → Reader β} (hr : Yields r P) (hk : ∀ a, P a → Yields (k a) Q) :
    Yields (r >>= k) Q := by
  intro cs b rest h
  obtain ⟨a, mid, ha, hb⟩ := Reader.bind_eq_ok_iff.mp h
  exact hk a (hr cs a mid ha) mid b rest hb

theorem yields_pure {a : α} (ha : P a) : Yields (pure a) P := by
  intro cs b rest h
  cases h
  exact ha

theorem yields_fail (f : Fault) : Yields (Reader.fail f) P := by
  intro cs a rest h
  cases h

theorem yields_true (r : Reader α) : Yields r fun _ => True :=
  fun _ _ _ _ => trivial

theorem Yields.map (hr : Yields r P) {f : α → β} (hf : ∀ a, P a → Q (f a)) :
    Yields (do return f (← r)) Q :=
  hr.bind fun a ha => yields_pure (hf a ha)

end ServiceSchema.Json
