import ServiceSchema.Proofs.Json.Compact
/-!
# Pretty text determines a value

The pretty text of a value begins like its compact text.  The items of a list stand on lines of
their own: the first after a line break, the others after a comma and a line break, and only the
last one is followed by a line break without a comma.  So the items are separated as in compact
text, with the line break as the end of the list.
-/

namespace ServiceSchema.Json

open Text (quoted quoted_append_inj StopsRun separated_append_inj)

def separator (d : Nat) : List Char :=
  ',' :: lineBreak d

/-- The items or entries between two brackets, of which the closing one belongs to it. -/
def block (d : Nat) (close : Char) : List (List Char) → List Char
  | [] => [close]
  | p :: ps =>
    lineBreak (d + 1) ++ ((separator (d + 1)).intercalate (p :: ps) ++ (lineBreak d ++ [close]))

def prettyEntryText (d : Nat) (e : String × Json) : List Char :=
  quoted e.1 ++ ':' :: ' ' :: e.2.prettyAt d

theorem prettyItems_cons (d : Nat) (j : Json) (js : List Json) :
    prettyItems d (j :: js) =
      lineBreak d ++ (separator d).intercalate ((j :: js).map (prettyAt d)) := by
  induction js generalizing j with
  | nil => simp [prettyItems]
  | cons k ks ih =>
      simp only [prettyItems, ih k, List.map_cons, List.intercalate_cons_cons, List.append_assoc]
      rfl

theorem prettyEntries_cons (d : Nat) (e : String × Json) (es : List (String × Json)) :
    prettyEntries d (e :: es) =
      lineBreak d ++ (separator d).intercalate ((e :: es).map (prettyEntryText d)) := by
  induction es generalizing e with
  | nil => simp [prettyEntries, prettyEntryText]
  | cons f fs ih =>
      simp only [prettyEntries, ih f, List.map_cons, List.intercalate_cons_cons,
        List.append_assoc, prettyEntryText, List.cons_append]
      rfl

theorem prettyAt_array (d : Nat) (js : List Json) :
    (array js).prettyAt d = '[' :: block d ']' (js.map (prettyAt (d + 1))) := by
  cases js with
  | nil => rfl
  | cons j js => rw [prettyAt, prettyItems_cons, List.append_assoc, List.map_cons, block]

theorem prettyAt_object (d : Nat) (es : List (String × Json)) :
    (object es).prettyAt d = '\x7b' :: block d '\x7d' (es.map (prettyEntryText (d + 1))) := by
  cases es with
  | nil => rfl
  | cons e es => rw [prettyAt, prettyEntries_cons, List.append_assoc, List.map_cons, block]

theorem head?_prettyAt_append (d : Nat) (j : Json) (x : List Char) :
    (j.prettyAt d ++ x).head? = (j.compact ++ x).head? := by
  cases j with
  | null | bool | number | string => rfl
  | array js => cases js <;> rfl
  | object es => cases es <;> rfl

theorem kind_eq_of_prettyAt_append_eq {d : Nat} {j k : Json} {x y : List Char}
    (h : j.prettyAt d ++ x = k.prettyAt d ++ y) : j.kind = k.kind := by
  have hkinds : some j.kind = some k.kind := by
    rw [← kindOf?_head?_compact j x, ← kindOf?_head?_compact k y, ← head?_prettyAt_append d,
      ← head?_prettyAt_append d, h]
  exact Option.some.inj hkinds

theorem head?_prettyAt_append_ne {c : Char} (hc : kindOf? c = none) (d : Nat) (j : Json)
    (x : List Char) : (j.prettyAt d ++ x).head? ≠ some c := by
  rw [head?_prettyAt_append]
  exact head?_compact_append_ne hc j x

section Block

variable {α : Type} {R : α → α → Prop} {f : α → List Char} {as bs : List α} {d : Nat} {close : Char}
  {x y : List Char}

theorem block_cons_append (d : Nat) (close : Char) (a : α) (as : List α) (x : List Char) :
    block d close ((a :: as).map f) ++ x = lineBreak (d + 1) ++
      ((separator (d + 1)).intercalate ((a :: as).map f) ++
        '\n' :: (List.replicate (2 * d) ' ' ++ close :: x)) := by
  simp [block, lineBreak]

theorem singleton_append_ne_block_cons (hclose : close ≠ '\n') (a : α) (as : List α) :
    [close] ++ x ≠ block d close ((a :: as).map f) ++ y := by
  rw [block_cons_append, lineBreak]
  simp [hclose]

/-- The items of a block are determined when each item is and no item begins with a line break. -/
theorem block_append_inj (hclose : close ≠ '\n')
    (hopen : ∀ a z, a ∈ as ∨ a ∈ bs → (f a ++ z).head? ≠ some '\n')
    (hitem : ∀ a ∈ as, ∀ b ∈ bs, ∀ v w, StopsRun isNumeralChar v → StopsRun isNumeralChar w →
      f a ++ v = f b ++ w → R a b ∧ v = w)
    (h : block d close (as.map f) ++ x = block d close (bs.map f) ++ y) :
    List.Forall₂ R as bs ∧ x = y := by
  cases as with
  | nil =>
      cases bs with
      | nil => exact ⟨.nil, List.append_cancel_left h⟩
      | cons b bs => exact absurd h (singleton_append_ne_block_cons hclose b bs)
  | cons a as =>
      cases bs with
      | nil => exact absurd h.symm (singleton_append_ne_block_cons hclose a as)
      | cons b bs =>
          rw [block_cons_append, block_cons_append, List.append_cancel_left_eq] at h
          obtain ⟨hitems, hend⟩ := separated_append_inj (StopsRun isNumeralChar)
            (fun _ => .cons rfl) (fun _ => .cons rfl) (fun z => by simp [separator]) hopen hitem h
          exact ⟨hitems, List.tail_eq_of_cons_eq (List.append_cancel_left hend)⟩

end Block

/-- A value's pretty text determines the value and where the text ends, if no number goes on. -/
theorem prettyAt_append_inj {j k : Json} {d : Nat} {x y : List Char}
    (hx : StopsRun isNumeralChar x) (hy : StopsRun isNumeralChar y)
    (h : j.prettyAt d ++ x = k.prettyAt d ++ y) : j.Alike k ∧ x = y := by
  have hkind := kind_eq_of_prettyAt_append_eq h
  induction j using induction_nested generalizing k d x y with
  | null | bool | number | string =>
      -- A scalar is written as in compact text.
      cases k with
      | array | object => exact absurd hkind (by simp [kind])
      | _ => exact compact_append_inj hx hy h
  | array js ih =>
      cases k with
      | array ks =>
          rw [prettyAt_array, prettyAt_array] at h
          obtain ⟨hitems, hxy⟩ := block_append_inj (by decide)
            (fun i z _ => head?_prettyAt_append_ne rfl (d + 1) i z)
            (fun i hi _ _ _ _ hv hw heq =>
              ih i hi hv hw heq (kind_eq_of_prettyAt_append_eq heq))
            (List.tail_eq_of_cons_eq h)
          exact ⟨.array hitems, hxy⟩
      | _ => exact absurd hkind (by simp [kind])
  | object es ih =>
      cases k with
      | object fs =>
          rw [prettyAt_object, prettyAt_object] at h
          have hentry : ∀ e ∈ es, ∀ f ∈ fs, ∀ v w, StopsRun isNumeralChar v →
              StopsRun isNumeralChar w →
                prettyEntryText (d + 1) e ++ v = prettyEntryText (d + 1) f ++ w →
                  AlikeEntry e f ∧ v = w := by
            intro e he f _ v w hv hw hef
            simp only [prettyEntryText, List.append_assoc] at hef
            obtain ⟨hkey, hvalue⟩ := quoted_append_inj hef
            have hvalue := List.tail_eq_of_cons_eq (List.tail_eq_of_cons_eq hvalue)
            obtain ⟨halike, hvw⟩ := ih e he hv hw hvalue (kind_eq_of_prettyAt_append_eq hvalue)
            exact ⟨.mk hkey halike, hvw⟩
          obtain ⟨hentries, hxy⟩ := block_append_inj (by decide)
            (fun e z _ => by simp [prettyEntryText, quoted]) hentry (List.tail_eq_of_cons_eq h)
          exact ⟨.object hentries, hxy⟩
      | _ => exact absurd hkind (by simp [kind])

end ServiceSchema.Json
