import ServiceSchema.Proofs.Emit.Openings
import ServiceSchema.Proofs.Schema.Tagged
import ServiceSchema.Proofs.Schema.Nesting
/-!
# The text of a schema determines the schema

The opening of a base or an operation tells which one it is, and what it holds is determined piece
by piece; a schema that it nests is determined by induction, because it stands before a text that
does not continue it.  Conversely schemas that are alike have one text at every depth.
-/

namespace ServiceSchema

open Text (quoted quoted_append_inj StopsRun separated_append_inj flatMap_append_inj)
open Json (compact_append_inj lineBreak)
open Emit

namespace Schema

variable {o : EmitOptions} {d : Nat} {x y : List Char}

def Base.Plain : Base → Prop
  | .ref n => isIdentifier n.toList = true
  | .lazy n => isIdentifier n.toList = true
  | .unsupported reason => ¬ ['*', '/'] <:+: reason.toList
  | _ => True

/-- Everywhere in the schema, references are identifiers and reasons do not end their comment. -/
def Plain (s : Schema) : Prop := ∀ t, Within t s → t.base.Plain

theorem plain_iff {s : Schema} : s.Plain ↔ s.base.Plain ∧ ∀ t ∈ s.nested, t.Plain :=
  forall_within_iff

theorem plain_of_nested_eq_nil {s : Schema} (hbase : s.base.Plain) (hs : s.nested = []) :
    s.Plain :=
  plain_iff.mpr ⟨hbase, hs ▸ List.forall_mem_nil _⟩

theorem Plain.nested {s t : Schema} (hs : s.Plain) (ht : t ∈ s.nested) : t.Plain :=
  fun u hu => hs u (.nested ht hu)

/-- The text of the schema, at every depth, determines it and where it ends. -/
def Determined (o : EmitOptions) (s : Schema) : Prop :=
  ∀ (d : Nat) (t : Schema) (x y : List Char), t.Plain → Ends x → Ends y →
    s.textAt o d ++ x = t.textAt o d ++ y → s.Alike t ∧ x = y

/-! ## Operations -/

theorem ends_paren (x : List Char) : Ends (')' :: x) :=
  ⟨")", by decide, x, rfl⟩

theorem ends_comma (x : List Char) : Ends (',' :: x) :=
  ⟨",", by decide, x, rfl⟩

theorem ends_bracket (x : List Char) : Ends (']' :: x) :=
  ⟨"]", by decide, x, rfl⟩

theorem ends_safeParse (x : List Char) : Ends (".safeParse(key);".toList ++ x) :=
  ⟨".safeParse(", by decide, "key);".toList ++ x, rfl⟩

theorem callWith_append_inj {name : String} {arg arg' : List Char}
    (h : callWith name arg ++ x = callWith name arg' ++ y) :
    arg ++ ')' :: x = arg' ++ ')' :: y := by
  simpa [callWith] using h

theorem countCall_append_inj {name : String} {m n : UInt64}
    (h : callWith name (countText m) ++ x = callWith name (countText n) ++ y) : m = n ∧ x = y := by
  obtain ⟨hmn, hxy⟩ := countText_append_inj (.cons rfl) (.cons rfl) (callWith_append_inj h)
  exact ⟨hmn, List.tail_eq_of_cons_eq hxy⟩

theorem numberCall_append_inj {name : String} {m n : Json.Number}
    (h : callWith name m.text ++ x = callWith name n.text ++ y) : m.text = n.text ∧ x = y := by
  obtain ⟨hmn, hxy⟩ := Json.Number.text_append_inj (.cons rfl) (.cons rfl) (callWith_append_inj h)
  exact ⟨hmn, List.tail_eq_of_cons_eq hxy⟩

theorem keyCount_append_inj {comparison : String} {m n : UInt64} {message message' : String}
    (h : keyCount comparison m message ++ x = keyCount comparison n message' ++ y) :
    m = n ∧ message = message' ∧ x = y := by
  have hstop : ∀ z, StopsRun Char.isDigit (", \x7b message: ".toList ++ z) :=
    fun _ => .cons rfl
  unfold keyCount at h
  simp only [List.append_assoc, List.cons_append, List.append_cancel_left_eq, List.cons.injEq,
    true_and] at h
  obtain ⟨hmn, h⟩ := countText_append_inj (hstop _) (hstop _) h
  obtain ⟨hmessage, hxy⟩ := quoted_append_inj (List.append_cancel_left h)
  exact ⟨hmn, hmessage, List.append_cancel_left hxy⟩

theorem Op.textAt_append_inj {op op' : Op} (hdet : ∀ t ∈ op.nested, t.Determined o)
    (hplain : ∀ t ∈ op'.nested, t.Plain) (h : op.textAt o d ++ x = op'.textAt o d ++ y) :
    op.Alike op' ∧ x = y := by
  cases Op.sameKind_of_textAt_append_eq h with
  | int | nonempty | positive | nonnegative | negative | nonpositive | array | optional =>
      exact ⟨.refl _, List.append_cancel_left h⟩
  | min | max | length =>
      obtain ⟨rfl, hxy⟩ := countCall_append_inj h
      exact ⟨.refl _, hxy⟩
  | regex =>
      unfold Op.textAt at h
      have hpattern := callWith_append_inj h
      simp only [List.append_assoc, List.append_cancel_left_eq] at hpattern
      obtain ⟨rfl, hxy⟩ := quoted_append_inj hpattern
      exact ⟨.refl _, by simpa using hxy⟩
  | gt => exact (numberCall_append_inj h).imp_left .gt
  | gte => exact (numberCall_append_inj h).imp_left .gte
  | lt => exact (numberCall_append_inj h).imp_left .lt
  | lte => exact (numberCall_append_inj h).imp_left .lte
  | multipleOf => exact (numberCall_append_inj h).imp_left .multipleOf
  | default =>
      obtain ⟨hvw, hxy⟩ := compact_append_inj (.cons rfl) (.cons rfl) (callWith_append_inj h)
      exact ⟨.default hvw, List.tail_eq_of_cons_eq hxy⟩
  | catchall v =>
      obtain ⟨hvw, hxy⟩ := hdet v List.mem_cons_self d _ _ _ (hplain _ List.mem_cons_self)
        (ends_paren x) (ends_paren y) (callWith_append_inj h)
      exact ⟨.catchall hvw, List.tail_eq_of_cons_eq hxy⟩
  | minKeys | maxKeys =>
      obtain ⟨rfl, rfl, hxy⟩ := keyCount_append_inj h
      exact ⟨.refl _, hxy⟩
  | keyCheck key _ known =>
      unfold Op.textAt at h
      simp only [List.append_assoc, List.append_cancel_left_eq] at h
      obtain ⟨rfl, hkey⟩ := quotedList_append_inj h
      simp only [List.append_cancel_left_eq] at hkey
      obtain ⟨hkey, hxy⟩ := hdet key List.mem_cons_self (d + 2) _ _ _
        (hplain _ List.mem_cons_self) (ends_safeParse _) (ends_safeParse _) hkey
      simp only [List.append_cancel_left_eq] at hxy
      exact ⟨.keyCheck known hkey, hxy⟩

theorem Op.textOfAll_eq (o : EmitOptions) (d : Nat) (ops : List Op) :
    Op.textOfAll o d ops = ops.flatMap (Op.textAt o d) := by
  induction ops with
  | nil => rfl
  | cons op ops ih => rw [List.flatMap_cons, ← ih, Op.textOfAll]

/-! ## Bases -/

theorem textAt_eq (o : EmitOptions) (d : Nat) (s : Schema) :
    s.textAt o d = s.base.textAt o d ++ Op.textOfAll o d s.ops := by
  cases s
  rfl

theorem Field.textAt_eq (o : EmitOptions) (d : Nat) (f : Field) :
    f.textAt o d =
      lineBreak d ++ (property f.name ++ ':' :: ' ' :: (f.schema.textAt o d ++ [','])) := by
  cases f
  exact List.append_assoc _ _ _

theorem textOfAll_eq (o : EmitOptions) (d : Nat) (ss : List Schema) :
    textOfAll o d ss = [',', ' '].intercalate (ss.map (textAt o d)) := by
  induction ss with
  | nil => rfl
  | cons s ss ih =>
      cases ss with
      | nil => simp [textOfAll]
      | cons t ts =>
          rw [List.map_cons, List.map_cons, List.intercalate_cons_cons, ← List.map_cons, ← ih,
            List.append_assoc]
          rfl

theorem Field.textOfAll_eq (o : EmitOptions) (d : Nat) (fs : List Field) :
    Field.textOfAll o d fs = fs.flatMap (Field.textAt o d) := by
  induction fs with
  | nil => rfl
  | cons f fs ih => rw [List.flatMap_cons, ← ih, Field.textOfAll]

theorem Base.exists_head_textAt (ho : WordSuffix o) {b : Base} (hb : b.Plain) (z : List Char) :
    ∃ c, (b.textAt o d ++ z).head? = some c ∧ isWordChar c = true := by
  by_cases href : ∃ n, b = .ref n
  · obtain ⟨n, rfl⟩ := href
    obtain ⟨c, cs, hcs⟩ := List.exists_cons_of_ne_nil (ne_nil_of_isIdentifier hb)
    have htext : (o.identifier n).toList = c :: (cs ++ o.suffix.toList) := by
      rw [EmitOptions.identifier, String.toList_append, hcs, List.cons_append]
    refine ⟨c, ?_, isWordChar_of_mem_identifier ho hb (htext ▸ List.mem_cons_self)⟩
    unfold Base.textAt
    rw [htext]
    rfl
  · have hz : ∀ w ∈ Base.openings, ['z'] <+: w.toList := by
      decide +kernel
    obtain ⟨t, ht⟩ := (hz b.opening (opening_mem fun n hn => href ⟨n, hn⟩)).trans
      (b.opening_isPrefix o d)
    exact ⟨'z', by rw [← ht]; rfl, rfl⟩

theorem textOfAll_append_inj (ho : WordSuffix o) {ss ts : List Schema}
    (hdet : ∀ s ∈ ss, s.Determined o) (hss : ∀ s ∈ ss, s.Plain) (hts : ∀ t ∈ ts, t.Plain)
    (h : textOfAll o d ss ++ ("])".toList ++ x) = textOfAll o d ts ++ ("])".toList ++ y)) :
    List.Forall₂ Alike ss ts ∧ x = y := by
  have hbracket : ∀ z : List Char, "])".toList ++ z = ']' :: ')' :: z := fun _ => rfl
  rw [textOfAll_eq, textOfAll_eq, hbracket, hbracket] at h
  have hopen : ∀ s z, s ∈ ss ∨ s ∈ ts → (s.textAt o d ++ z).head? ≠ some ']' := by
    intro s z hs
    have hplain : s.Plain := hs.elim (hss s) (hts s)
    obtain ⟨c, hc, hword⟩ := Base.exists_head_textAt ho (hplain s (.self s))
      (Op.textOfAll o d s.ops ++ z)
    rw [textAt_eq, List.append_assoc, hc]
    rintro ⟨⟩
    exact absurd hword (by decide)
  obtain ⟨hschemas, hxy⟩ := separated_append_inj Ends (fun z => ends_comma (' ' :: z))
    ends_bracket (fun _ => by simp) hopen
    (fun s hs t ht v w hv hw heq => hdet s hs d t v w (hts t ht) hv hw heq) h
  exact ⟨hschemas, List.tail_eq_of_cons_eq hxy⟩

theorem lineBreak_succ (d : Nat) : lineBreak (d + 1) = lineBreak d ++ [' ', ' '] := by
  rw [lineBreak, Nat.mul_add, List.replicate_add]
  rfl

theorem Field.textOfAll_append_inj {fs gs : List Field} (hdet : ∀ f ∈ fs, f.schema.Determined o)
    (hplain : ∀ g ∈ gs, g.schema.Plain)
    (h : Field.textOfAll o (d + 1) fs ++ (lineBreak d ++ ("\x7d)".toList ++ x)) =
      Field.textOfAll o (d + 1) gs ++ (lineBreak d ++ ("\x7d)".toList ++ y))) :
    List.Forall₂ Field.Alike fs gs ∧ x = y := by
  rw [Field.textOfAll_eq, Field.textOfAll_eq] at h
  have hclose : ∀ z, lineBreak d ++ ['\x7d'] <+: lineBreak d ++ ("\x7d)".toList ++ z) :=
    fun z => (List.prefix_append_right_inj _).mpr ⟨')' :: z, rfl⟩
  have hdisjoint : ∀ (f : Field) z,
      ¬ lineBreak d ++ ['\x7d'] <+: f.textAt o (d + 1) ++ z := by
    intro f z hz
    simp only [Field.textAt_eq, lineBreak_succ, List.append_assoc] at hz
    exact absurd ((List.prefix_append_right_inj _).mp hz) (by simp)
  have hfield : ∀ f ∈ fs, ∀ g ∈ gs, ∀ v w, True → True →
      f.textAt o (d + 1) ++ v = g.textAt o (d + 1) ++ w → f.Alike g ∧ v = w := by
    intro f hf g hg v w _ _ heq
    simp only [Field.textAt_eq, List.append_assoc, List.cons_append,
      List.append_cancel_left_eq] at heq
    obtain ⟨hname, heq⟩ := property_append_inj heq
    obtain ⟨hschema, hvw⟩ := hdet f hf (d + 1) _ _ _ (hplain g hg) (ends_comma v) (ends_comma w)
      (List.tail_eq_of_cons_eq heq)
    exact ⟨.mk hname hschema, List.tail_eq_of_cons_eq hvw⟩
  obtain ⟨hfields, hxy⟩ := flatMap_append_inj (fun _ => True) (lineBreak d ++ ['\x7d'] <+: ·)
    (fun _ _ => trivial) (fun _ _ => trivial) hdisjoint hfield (hclose x) (hclose y) h
  exact ⟨hfields, List.append_cancel_left (List.append_cancel_left hxy)⟩

/-- Two objects with the same text have the same fields; one of them may have none. -/
theorem Base.object_append_inj {fs gs : List Field} (hdet : ∀ f ∈ fs, f.schema.Determined o)
    (hplain : ∀ g ∈ gs, g.schema.Plain)
    (h : (Base.object fs).textAt o d ++ x = (Base.object gs).textAt o d ++ y) :
    List.Forall₂ Field.Alike fs gs ∧ x = y := by
  have hempty : ∀ z : List Char, (Base.object []).textAt o d ++ z =
      "z.object(\x7b".toList ++ ("\x7d)".toList ++ z) := fun _ => rfl
  have hcons : ∀ f fs z, (Base.object (f :: fs)).textAt o d ++ z = "z.object(\x7b".toList ++
      (Field.textOfAll o (d + 1) (f :: fs) ++ (lineBreak d ++ ("\x7d)".toList ++ z))) := by
    intro f fs z
    unfold Base.textAt
    simp only [Field.textOfAll, List.append_assoc]
  have hline : ∀ (f : Field) fs v w,
      "\x7d)".toList ++ v ≠ Field.textOfAll o (d + 1) (f :: fs) ++ w := by
    intro f fs v w heq
    rw [Field.textOfAll, Field.textAt_eq] at heq
    simp [lineBreak] at heq
  cases fs with
  | nil =>
      cases gs with
      | nil => exact ⟨.nil, List.append_cancel_left h⟩
      | cons g gs =>
          rw [hempty, hcons] at h
          exact absurd (List.append_cancel_left h) (hline g gs _ _)
  | cons f fs =>
      cases gs with
      | nil =>
          rw [hempty, hcons] at h
          exact absurd (List.append_cancel_left h).symm (hline f fs _ _)
      | cons g gs =>
          rw [hcons, hcons] at h
          exact Field.textOfAll_append_inj hdet hplain (List.append_cancel_left h)

/-- A comment follows only the base that it belongs to. -/
theorem Base.any_append_ne_unsupported (hx : Follows x) {reason : String} :
    Base.any.textAt o d ++ x ≠ (Base.unsupported reason).textAt o d ++ y := by
  have hany : Base.any.textAt o d ++ x = "z.any()".toList ++ x := rfl
  have hunsupported : (Base.unsupported reason).textAt o d ++ y = "z.any()".toList ++
      ' ' :: ("/* unsupported: ".toList ++ (reason.toList ++ (" */".toList ++ y))) := by
    unfold Base.textAt
    simp only [List.append_assoc]
    rfl
  rw [hany, hunsupported]
  intro h
  exact hx.head?_ne_blank (by rw [List.append_cancel_left h]; rfl)

/-- The text of a base determines what the base holds, the kind of base being known. -/
theorem Base.SameKind.textAt_append_inj (ho : WordSuffix o) {b b' : Base} (hkind : b.SameKind b')
    (hopening : b.opening = b'.opening) (href : ∀ n, b ≠ .ref n)
    (hdet : ∀ t ∈ b.nested, t.Determined o) (hb : b.Plain) (hb' : b'.Plain)
    (hnested : ∀ t ∈ b.nested, t.Plain) (hnested' : ∀ t ∈ b'.nested, t.Plain)
    (h : b.textAt o d ++ x = b'.textAt o d ++ y) : b.Alike b' ∧ x = y := by
  cases hkind with
  | string | any | null => exact ⟨.refl _, List.append_cancel_left h⟩
  | number c c' | boolean c c' | date c c' =>
      obtain rfl : c = c' := by
        cases c <;> cases c' <;> first | rfl | exact absurd hopening (by decide)
      exact ⟨.refl _, List.append_cancel_left h⟩
  | literal =>
      unfold textAt at h
      simp only [List.append_assoc, List.append_cancel_left_eq] at h
      obtain ⟨hvw, hxy⟩ := compact_append_inj (.cons rfl) (.cons rfl) h
      exact ⟨.literal hvw, List.tail_eq_of_cons_eq hxy⟩
  | enum =>
      unfold textAt at h
      simp only [List.append_assoc, List.append_cancel_left_eq] at h
      obtain ⟨rfl, hxy⟩ := quotedList_append_inj h
      exact ⟨.refl _, List.append_cancel_left hxy⟩
  | ref n => exact absurd rfl (href n)
  | lazy =>
      unfold textAt at h
      simp only [List.append_assoc, List.append_cancel_left_eq] at h
      obtain ⟨rfl, hxy⟩ := identifier_append_inj ho hb hb' (.cons rfl) (.cons rfl) h
      exact ⟨.refl _, List.tail_eq_of_cons_eq hxy⟩
  | object =>
      obtain ⟨hfields, hxy⟩ := object_append_inj
        (fun f hf => hdet f.schema (List.mem_map_of_mem hf))
        (fun g hg => hnested' g.schema (List.mem_map_of_mem hg)) h
      exact ⟨.object hfields, hxy⟩
  | record v =>
      unfold textAt at h
      simp only [List.append_assoc, List.append_cancel_left_eq] at h
      obtain ⟨hvw, hxy⟩ := hdet v List.mem_cons_self d _ _ _ (hnested' _ List.mem_cons_self)
        (ends_paren x) (ends_paren y) h
      exact ⟨.record hvw, List.tail_eq_of_cons_eq hxy⟩
  | union =>
      unfold textAt at h
      simp only [List.append_assoc, List.append_cancel_left_eq] at h
      exact (textOfAll_append_inj ho hdet hnested hnested' h).imp_left .union
  | discriminatedUnion discriminator =>
      unfold textAt at h
      simp only [List.append_assoc, List.append_cancel_left_eq] at h
      obtain ⟨rfl, hvariants⟩ := quoted_append_inj h
      have hvariants := List.append_cancel_left hvariants
      exact (textOfAll_append_inj ho hdet hnested hnested' hvariants).imp_left
        (.discriminatedUnion discriminator)
  | unsupported =>
      unfold textAt at h
      simp only [List.append_assoc, List.append_cancel_left_eq] at h
      obtain ⟨hreason, hxy⟩ := comment_append_inj hb hb' h
      exact ⟨String.toList_injective hreason ▸ .refl _, hxy⟩

theorem Base.textAt_append_inj_of_ne_ref (ho : WordSuffix o) {b b' : Base}
    (href : ∀ n, b ≠ .ref n) (href' : ∀ n, b' ≠ .ref n)
    (hdet : ∀ t ∈ b.nested, t.Determined o) (hb : b.Plain) (hb' : b'.Plain)
    (hnested : ∀ t ∈ b.nested, t.Plain) (hnested' : ∀ t ∈ b'.nested, t.Plain) (hx : Follows x)
    (hy : Follows y) (h : b.textAt o d ++ x = b'.textAt o d ++ y) : b.Alike b' ∧ x = y := by
  have hopening := opening_eq href href' h
  rcases sameKind_of_opening_eq href href' hopening with
    hkind | ⟨reason, rfl, rfl⟩ | ⟨reason, rfl, rfl⟩
  · exact hkind.textAt_append_inj ho hopening href hdet hb hb' hnested hnested' h
  · exact absurd h (any_append_ne_unsupported hx)
  · exact absurd h.symm (any_append_ne_unsupported hy)

/-- A base's text determines the base and where it ends. -/
theorem Base.textAt_append_inj (ho : WordSuffix o) {b b' : Base}
    (hdet : ∀ t ∈ b.nested, t.Determined o) (hb : b.Plain) (hb' : b'.Plain)
    (hnested : ∀ t ∈ b.nested, t.Plain) (hnested' : ∀ t ∈ b'.nested, t.Plain) (hx : Follows x)
    (hy : Follows y) (h : b.textAt o d ++ x = b'.textAt o d ++ y) : b.Alike b' ∧ x = y := by
  by_cases href : ∃ n, b = .ref n
  · obtain ⟨n, rfl⟩ := href
    by_cases href' : ∃ n', b' = .ref n'
    · obtain ⟨n', rfl⟩ := href'
      obtain ⟨rfl, hxy⟩ := identifier_append_inj ho hb hb' hx.stopsRun hy.stopsRun h
      exact ⟨.refl _, hxy⟩
    · exact absurd h.symm (textAt_append_ne_identifier ho (fun n' hn' => href' ⟨n', hn'⟩) hb hx)
  · by_cases href' : ∃ n', b' = .ref n'
    · obtain ⟨n', rfl⟩ := href'
      exact absurd h (textAt_append_ne_identifier ho (fun n hn => href ⟨n, hn⟩) hb' hy)
    · exact textAt_append_inj_of_ne_ref ho (fun n hn => href ⟨n, hn⟩)
        (fun n' hn' => href' ⟨n', hn'⟩) hdet hb hb' hnested hnested' hx hy h

/-! ## Schemas -/

theorem follows_textOfAll (hx : Ends x) (ops : List Op) : Follows (Op.textOfAll o d ops ++ x) := by
  rw [Op.textOfAll_eq]
  exact Text.follows_flatMap_append (fun _ => Ends.follows) (follows_textAt_append o d) hx

/-- Every schema is determined by its text and by where it ends. -/
theorem determined (ho : WordSuffix o) {s : Schema} (hs : s.Plain) : s.Determined o := by
  induction s using induction_nested with
  | step s ih =>
      intro d t x y ht hx hy h
      rw [textAt_eq, textAt_eq, List.append_assoc, List.append_assoc] at h
      obtain ⟨hbase, hrest⟩ := Base.textAt_append_inj ho
        (fun u hu => ih u (List.mem_append_left _ hu) (hs.nested (List.mem_append_left _ hu)))
        (hs s (.self s)) (ht t (.self t)) (fun u hu => hs.nested (List.mem_append_left _ hu))
        (fun u hu => ht.nested (List.mem_append_left _ hu)) (follows_textOfAll hx _)
        (follows_textOfAll hy _) h
      rw [Op.textOfAll_eq, Op.textOfAll_eq] at hrest
      have hop : ∀ op ∈ s.ops, ∀ op' ∈ t.ops, ∀ v w, Follows v → Follows w →
          op.textAt o d ++ v = op'.textAt o d ++ w → op.Alike op' ∧ v = w := by
        intro op hop op' hop' v w _ _ heq
        have hmem : ∀ u ∈ op.nested, u ∈ s.nested := fun u hu =>
          List.mem_append_right _ (List.mem_flatMap.mpr ⟨op, hop, hu⟩)
        have hmem' : ∀ u ∈ op'.nested, u ∈ t.nested := fun u hu =>
          List.mem_append_right _ (List.mem_flatMap.mpr ⟨op', hop', hu⟩)
        exact Op.textAt_append_inj (fun u hu => ih u (hmem u hu) (hs.nested (hmem u hu)))
          (fun u hu => ht.nested (hmem' u hu)) heq
      obtain ⟨hops, hxy⟩ := flatMap_append_inj Follows Ends (fun _ => Ends.follows)
        (follows_textAt_append o d) (not_ends_textAt_append o d) hop hx hy hrest
      exact ⟨.mk hbase hops, hxy⟩

/-! ## Schemas that are alike -/

def WrittenAlike (o : EmitOptions) (s : Schema) : Prop :=
  ∀ t, s.Alike t → ∀ d, s.textAt o d = t.textAt o d

theorem Op.Alike.textAt_eq {op op' : Op} (hnested : ∀ t ∈ op.nested, t.WrittenAlike o)
    (h : op.Alike op') (d : Nat) : op.textAt o d = op'.textAt o d := by
  cases h with
  | refl => rfl
  | gt hmn | gte hmn | lt hmn | lte hmn | multipleOf hmn =>
      unfold Op.textAt
      rw [hmn]
  | default hvw =>
      unfold Op.textAt
      rw [hvw.compact_eq]
  | catchall hvw =>
      unfold Op.textAt
      rw [hnested _ List.mem_cons_self _ hvw]
  | keyCheck known hvw =>
      unfold Op.textAt
      rw [hnested _ List.mem_cons_self _ hvw]

theorem Field.Alike.textAt_eq {f g : Field} (hf : f.schema.WrittenAlike o) (h : f.Alike g)
    (d : Nat) : f.textAt o d = g.textAt o d := by
  obtain ⟨hname, hschema⟩ := h
  rw [Field.textAt_eq, Field.textAt_eq, hname, hf _ hschema]

theorem textOfAll_eq_of_forall₂ {ss ts : List Schema} (hss : ∀ s ∈ ss, s.WrittenAlike o)
    (h : List.Forall₂ Alike ss ts) (d : Nat) : textOfAll o d ss = textOfAll o d ts := by
  rw [textOfAll_eq, textOfAll_eq,
    Text.map_eq_of_forall₂ (fun s hs t hst => hss s hs t hst d) h]

theorem Field.textOfAll_eq_of_forall₂ {fs gs : List Field}
    (hfs : ∀ f ∈ fs, f.schema.WrittenAlike o) (h : List.Forall₂ Field.Alike fs gs) (d : Nat) :
    Field.textOfAll o d fs = Field.textOfAll o d gs := by
  rw [Field.textOfAll_eq, Field.textOfAll_eq, List.flatMap_def, List.flatMap_def,
    Text.map_eq_of_forall₂ (fun f hf g hfg => hfg.textAt_eq (hfs f hf) d) h]

theorem Base.Alike.textAt_eq {b b' : Base} (hnested : ∀ t ∈ b.nested, t.WrittenAlike o)
    (h : b.Alike b') (d : Nat) : b.textAt o d = b'.textAt o d := by
  cases h with
  | refl => rfl
  | literal hvw =>
      unfold Base.textAt
      rw [hvw.compact_eq]
  | object hfields =>
      cases hfields with
      | nil => rfl
      | cons hf hfs =>
          have hschemas := fun f hf => hnested (Field.schema f) (List.mem_map_of_mem hf)
          unfold Base.textAt
          rw [hf.textAt_eq (hschemas _ List.mem_cons_self), Field.textOfAll_eq_of_forall₂
            (fun f hf => hschemas f (List.mem_cons_of_mem _ hf)) hfs]
  | record hvw =>
      unfold Base.textAt
      rw [hnested _ List.mem_cons_self _ hvw]
  | union hss | discriminatedUnion _ hss =>
      have hvariants := textOfAll_eq_of_forall₂ hnested hss d
      unfold Base.textAt
      exact hvariants ▸ rfl

theorem writtenAlike (o : EmitOptions) (s : Schema) : s.WrittenAlike o := by
  induction s using induction_nested with
  | step s ih =>
      rintro t ⟨hbase, hops⟩ d
      have hop : ∀ op ∈ s.ops, ∀ op', op.Alike op' → op.textAt o d = op'.textAt o d := by
        intro op hop op' halike
        exact halike.textAt_eq (fun u hu =>
          ih u (List.mem_append_right _ (List.mem_flatMap.mpr ⟨op, hop, hu⟩))) d
      rw [textAt_eq, textAt_eq, hbase.textAt_eq (fun u hu => ih u (List.mem_append_left _ hu)),
        Op.textOfAll_eq, Op.textOfAll_eq, List.flatMap_def, List.flatMap_def,
        Text.map_eq_of_forall₂ hop hops]

end Schema

end ServiceSchema
