import ServiceSchema.Proofs.Emit.Pages
/-!
# The layout of nested schemas

How deep a schema stands shows only in the blanks after its line breaks.  Its names and reasons have
no line break if they are on one line, and everything else that it holds is quoted or made of digits
and signs.  So the text at a depth is the text on its own with more blanks after each line break.
-/

namespace ServiceSchema

open Text (quoted)
open Json (lineBreak)

namespace Emit

variable {x y : List Char} {k : Nat}

/-- A text with blanks after each line break, two for each step of depth. -/
def indented (k : Nat) (x : List Char) : List Char :=
  x.flatMap fun c => if c = '\n' then lineBreak k else [c]

def Unbroken (x : List Char) : Prop := '\n' ∉ x

instance (x : List Char) : Decidable (Unbroken x) :=
  inferInstanceAs (Decidable ('\n' ∉ x))

theorem indented_append (k : Nat) (x y : List Char) :
    indented k (x ++ y) = indented k x ++ indented k y :=
  List.flatMap_append

theorem Unbroken.indented_eq (h : Unbroken x) (k : Nat) : indented k x = x := by
  have hc : ∀ c ∈ x, (if c = '\n' then lineBreak k else [c]) = [c] := by
    intro c hc
    rw [if_neg]
    rintro rfl
    exact h hc
  rw [indented, List.flatMap_congr hc]
  exact List.flatMap_singleton' x

theorem indented_lineBreak (k d : Nat) : indented k (lineBreak d) = lineBreak (d + k) := by
  have hblanks : Unbroken (List.replicate (2 * d) ' ') := by
    intro h
    exact absurd (List.eq_of_mem_replicate h) (by decide)
  have hbreak : indented k ['\n'] = lineBreak k := List.append_nil _
  rw [lineBreak, ← List.singleton_append, indented_append, hblanks.indented_eq, hbreak, lineBreak,
    lineBreak, List.cons_append, List.replicate_append_replicate, ← Nat.mul_add, Nat.add_comm]

/-! ## Texts without line breaks -/

theorem Unbroken.append (hx : Unbroken x) (hy : Unbroken y) : Unbroken (x ++ y) := by
  intro h
  exact (List.mem_append.mp h).elim hx hy

theorem unbroken_flatMap {α : Type} {f : α → List Char} {as : List α}
    (h : ∀ a ∈ as, Unbroken (f a)) : Unbroken (as.flatMap f) := by
  intro hbreak
  obtain ⟨a, ha, hmem⟩ := List.mem_flatMap.mp hbreak
  exact h a ha hmem

theorem unbroken_intercalate {sep : List Char} {ps : List (List Char)} (hsep : Unbroken sep)
    (h : ∀ p ∈ ps, Unbroken p) : Unbroken (sep.intercalate ps) := by
  cases ps with
  | nil => exact List.not_mem_nil
  | cons p ps =>
      obtain ⟨hp, hps⟩ := List.forall_mem_cons.mp h
      rw [Text.intercalate_cons_eq_flatMap]
      exact hp.append (unbroken_flatMap fun q hq => hsep.append (hps q hq))

theorem unbroken_of_forall {p : Char → Bool} (hp : p '\n' = false) (h : ∀ c ∈ x, p c = true) :
    Unbroken x := by
  intro hbreak
  exact Bool.false_ne_true (hp.symm.trans (h '\n' hbreak))

theorem unbroken_escaped (c : Char) : Unbroken (Text.escaped c) := by
  rcases Text.escaped_cases c with ⟨l, h, -, hl⟩ | ⟨h, hc⟩ | ⟨h, -, -, hc⟩
  · rw [h]
    intro hbreak
    obtain rfl : '\n' = l := by simpa using hbreak
    cases hl
  · have hhex : ∀ n < 32, '\n' ∉ '\\' :: 'u' :: '0' :: '0' :: Text.hexByte n := by
      decide
    rw [h]
    exact hhex _ hc
  · rw [h]
    intro hbreak
    obtain rfl := List.mem_singleton.mp hbreak
    exact hc (by decide)

/-- No literal breaks its line. -/
theorem unbroken_quoted (s : String) : Unbroken (quoted s) :=
  (show Unbroken ['"'] by decide).append
    ((unbroken_flatMap fun c _ => unbroken_escaped c).append (by decide))

theorem unbroken_property (n : String) : Unbroken (property n) := by
  unfold property
  split
  · next hn =>
      exact unbroken_of_forall (p := isIdentifierRest) rfl fun _ => isIdentifierRest_of_mem hn
  · exact unbroken_quoted n

theorem unbroken_quotedList (ss : List String) : Unbroken (quotedList ss) := by
  have hitems : Unbroken (commaList (ss.map quoted)) := by
    rw [commaList_eq]
    refine unbroken_intercalate (by decide) fun p hp => ?_
    obtain ⟨s, -, rfl⟩ := List.mem_map.mp hp
    exact unbroken_quoted s
  exact (show Unbroken ['['] by decide).append (hitems.append (by decide))

theorem unbroken_countText (n : UInt64) : Unbroken (countText n) :=
  unbroken_of_forall (p := Char.isDigit) rfl fun _ => Json.isDigit_of_mem_natText

theorem unbroken_text (n : Json.Number) : Unbroken n.text :=
  unbroken_of_forall (p := Json.isNumeralChar) rfl fun _ => Json.Number.isNumeralChar_of_mem_text

theorem unbroken_compact (j : Json) : Unbroken j.compact := by
  have hcomma : Unbroken [','] := by decide
  induction j using Json.induction_nested with
  | null => exact (by decide : Unbroken "null".toList)
  | bool b =>
      cases b with
      | true => exact (by decide : Unbroken "true".toList)
      | false => exact (by decide : Unbroken "false".toList)
  | number n => exact unbroken_text n
  | string s => exact unbroken_quoted s
  | array js ih =>
      have hitems : Unbroken (Json.compactItems js) := by
        rw [Json.compactItems_eq]
        refine unbroken_intercalate hcomma fun p hp => ?_
        obtain ⟨j, hj, rfl⟩ := List.mem_map.mp hp
        exact ih j hj
      exact (show Unbroken ['['] by decide).append (hitems.append (by decide))
  | object es ih =>
      have hentries : Unbroken (Json.compactEntries es) := by
        rw [Json.compactEntries_eq]
        refine unbroken_intercalate hcomma fun p hp => ?_
        obtain ⟨e, he, rfl⟩ := List.mem_map.mp hp
        exact (unbroken_quoted e.1).append ((show Unbroken [':'] by decide).append (ih e he))
      exact (show Unbroken ['\x7b'] by decide).append (hentries.append (by decide))

theorem unbroken_identifier {o : EmitOptions} (ho : Unbroken o.suffix.toList) {n : String}
    (hn : Unbroken n.toList) : Unbroken (o.identifier n).toList := by
  rw [EmitOptions.identifier, String.toList_append]
  exact hn.append ho

theorem unbroken_call {name : String} (h : Unbroken name.toList) : Unbroken (call name) :=
  (show Unbroken ['.'] by decide).append (h.append (by decide))

theorem unbroken_callWith {name : String} {arg : List Char} (hname : Unbroken name.toList)
    (harg : Unbroken arg) : Unbroken (callWith name arg) :=
  (show Unbroken ['.'] by decide).append
    (hname.append ((show Unbroken ['('] by decide).append (harg.append (by decide))))

theorem unbroken_keyCount {comparison : String} (h : Unbroken comparison.toList) (count : UInt64)
    (message : String) : Unbroken (keyCount comparison count message) := by
  have hcount : Unbroken (' ' :: (countText count ++ ", \x7b message: ".toList ++ quoted message ++
      " \x7d)".toList)) :=
    (show Unbroken [' '] by decide).append ((((unbroken_countText count).append (by decide)).append
      (unbroken_quoted message)).append (by decide))
  exact ((show Unbroken ".refine((value) => Object.keys(value).length ".toList by decide).append
    h).append hcount

/-! ## Texts at a depth -/

/-- The text at a greater depth differs only in the blanks after its line breaks. -/
def Hangs (f : Nat → List Char) : Prop := ∀ d k, indented k (f d) = f (d + k)

variable {f g : Nat → List Char}

theorem Unbroken.hangs (h : Unbroken x) : Hangs fun _ => x :=
  fun _ k => h.indented_eq k

theorem Hangs.append (hf : Hangs f) (hg : Hangs g) : Hangs fun d => f d ++ g d := by
  intro d k
  rw [indented_append, hf, hg]

theorem Hangs.deeper (hf : Hangs f) (n : Nat) : Hangs fun d => f (d + n) := by
  intro d k
  rw [hf, Nat.add_right_comm]

theorem hangs_lineBreak : Hangs lineBreak :=
  fun d k => indented_lineBreak k d

theorem hangs_line (text : String) (h : Unbroken text.toList) (n : Nat) :
    Hangs fun d => line (d + n) text :=
  (hangs_lineBreak.append h.hangs).deeper n

theorem hangs_flatMap {α : Type} {t : α → Nat → List Char} {as : List α}
    (h : ∀ a ∈ as, Hangs (t a)) : Hangs fun d => as.flatMap fun a => t a d := by
  induction as with
  | nil => exact fun _ _ => rfl
  | cons a as ih =>
      obtain ⟨ha, has⟩ := List.forall_mem_cons.mp h
      exact ha.append (ih has)

end Emit

namespace Schema

open Emit

variable {o : EmitOptions}

def Base.SingleLine : Base → Prop
  | .ref n => Unbroken n.toList
  | .lazy n => Unbroken n.toList
  | .unsupported reason => Unbroken reason.toList
  | _ => True

/-- Everywhere in the schema, references and reasons are written on one line. -/
def SingleLine (s : Schema) : Prop := ∀ t, Within t s → t.base.SingleLine

theorem singleLine_iff {s : Schema} :
    s.SingleLine ↔ s.base.SingleLine ∧ ∀ t ∈ s.nested, t.SingleLine :=
  forall_within_iff

/-! ## Operations -/

theorem Op.hangs_keyCheck {key : Schema} (hkey : Hangs (key.textAt o)) (known : List String) :
    Hangs fun d => (Op.keyCheck key known).textAt o d := by
  have hopen : Hangs fun _ => ".superRefine((value, ctx) => \x7b".toList :=
    Unbroken.hangs (by decide)
  have hset := hangs_line "const known = new Set<string>(" (by decide) 1
  have hknown := (unbroken_quotedList known).hangs
  have hsetEnd : Hangs fun _ => ");".toList := Unbroken.hangs (by decide)
  have hloop := hangs_line "for (const key of Object.keys(value)) \x7b" (by decide) 1
  have hskip := hangs_line "if (known.has(key)) continue;" (by decide) 2
  have hresult := hangs_line "const result = " (by decide) 2
  have hparse : Hangs fun _ => ".safeParse(key);".toList := Unbroken.hangs (by decide)
  have htest := hangs_line "if (!result.success) \x7b" (by decide) 2
  have hissue := hangs_line "ctx.addIssue(\x7b" (by decide) 3
  have hcode := hangs_line "code: z.ZodIssueCode.custom," (by decide) 4
  have hpath := hangs_line "path: [key]," (by decide) 4
  have hmessage := hangs_line
    "message: result.error.issues.map((issue) => issue.message).join(\"; \")," (by decide) 4
  have hissueEnd := hangs_line "\x7d);" (by decide) 3
  have htestEnd := hangs_line "\x7d" (by decide) 2
  have hloopEnd := hangs_line "\x7d" (by decide) 1
  have hclose := hangs_line "\x7d)" (by decide) 0
  have htoLoop := (((hopen.append hset).append hknown).append hsetEnd).append hloop
  have htoKey := ((htoLoop.append hskip).append hresult).append (hkey.deeper 2)
  have htoIssue := ((htoKey.append hparse).append htest).append hissue
  have htoMessage := ((htoIssue.append hcode).append hpath).append hmessage
  intro d k
  unfold Op.textAt
  exact ((((htoMessage.append hissueEnd).append htestEnd).append hloopEnd).append hclose) d k

theorem Op.hangs_textAt {op : Op} (h : ∀ s ∈ op.nested, Hangs (s.textAt o)) :
    Hangs fun d => op.textAt o d := by
  cases op with
  | int | nonempty | positive | nonnegative | negative | nonpositive | array | optional =>
      exact (unbroken_call (by decide)).hangs
  | min n | max n | length n => exact (unbroken_callWith (by decide) (unbroken_countText n)).hangs
  | regex pattern =>
      have hpattern : Unbroken ("new RegExp(".toList ++ quoted pattern ++ [')']) :=
        ((show Unbroken "new RegExp(".toList by decide).append (unbroken_quoted pattern)).append
          (by decide)
      exact (unbroken_callWith (by decide) hpattern).hangs
  | gt n | gte n | lt n | lte n | multipleOf n =>
      exact (unbroken_callWith (by decide) (unbroken_text n)).hangs
  | default value => exact (unbroken_callWith (by decide) (unbroken_compact value)).hangs
  | catchall value =>
      have hopen : Hangs fun _ => ".catchall(".toList := Unbroken.hangs (by decide)
      have hclose : Hangs fun _ => [')'] := Unbroken.hangs (by decide)
      exact hopen.append ((h value List.mem_cons_self).append hclose)
  | minKeys count message | maxKeys count message =>
      exact (unbroken_keyCount (by decide) count message).hangs
  | keyCheck key known => exact hangs_keyCheck (h key List.mem_cons_self) known

/-! ## Bases -/

theorem hangs_textOfAll {ss : List Schema} (h : ∀ s ∈ ss, Hangs (s.textAt o)) :
    Hangs fun d => textOfAll o d ss := by
  induction ss with
  | nil => exact fun _ _ => rfl
  | cons s ss ih =>
      obtain ⟨hs, hss⟩ := List.forall_mem_cons.mp h
      cases ss with
      | nil => exact hs
      | cons t ts =>
          have hcomma : Hangs fun _ => [',', ' '] := Unbroken.hangs (by decide)
          exact hs.append (hcomma.append (ih hss))

theorem Field.hangs_textAt {f : Field} (h : Hangs (f.schema.textAt o)) :
    Hangs fun d => f.textAt o d := by
  have hcolon : Hangs fun _ => [':', ' '] := Unbroken.hangs (by decide)
  have hcomma : Hangs fun _ => [','] := Unbroken.hangs (by decide)
  simp only [Field.textAt_eq]
  exact hangs_lineBreak.append ((unbroken_property f.name).hangs.append
    (hcolon.append (h.append hcomma)))

theorem Base.hangs_object {fields : List Field}
    (h : ∀ f ∈ fields, Hangs (f.schema.textAt o)) :
    Hangs fun d => (Base.object fields).textAt o d := by
  cases fields with
  | nil => exact Unbroken.hangs (x := "z.object(\x7b\x7d)".toList) (by decide)
  | cons f fields =>
      have hopen : Hangs fun _ => "z.object(\x7b".toList := Unbroken.hangs (by decide)
      have hfields : Hangs fun d => Field.textOfAll o d (f :: fields) := by
        simp only [Field.textOfAll_eq]
        exact hangs_flatMap fun g hg => Field.hangs_textAt (h g hg)
      have hclose := hangs_line "\x7d)" (by decide) 0
      have htext : ∀ d, (Base.object (f :: fields)).textAt o d =
          "z.object(\x7b".toList ++ Field.textOfAll o (d + 1) (f :: fields) ++ line d "\x7d)" := by
        intro d
        rw [Field.textOfAll, line]
        unfold Base.textAt
        simp only [List.append_assoc]
      simp only [htext]
      exact (hopen.append (hfields.deeper 1)).append hclose

theorem Base.hangs_textAt (ho : Unbroken o.suffix.toList) {b : Base} (hb : b.SingleLine)
    (h : ∀ s ∈ b.nested, Hangs (s.textAt o)) : Hangs fun d => b.textAt o d := by
  cases b with
  | string | any | null =>
      unfold Base.textAt
      exact Unbroken.hangs (by decide)
  | number coerce | boolean coerce | date coerce =>
      unfold Base.textAt
      cases coerce <;> exact Unbroken.hangs (by decide)
  | literal value =>
      unfold Base.textAt
      exact (((show Unbroken "z.literal(".toList by decide).append
        (unbroken_compact value)).append (by decide)).hangs
  | «enum» values =>
      unfold Base.textAt
      exact (((show Unbroken "z.enum(".toList by decide).append
        (unbroken_quotedList values)).append (by decide)).hangs
  | ref name => exact (unbroken_identifier ho hb).hangs
  | lazy name =>
      unfold Base.textAt
      exact (((show Unbroken "z.lazy(() => ".toList by decide).append
        (unbroken_identifier ho hb)).append (by decide)).hangs
  | object fields => exact hangs_object fun f hf => h f.schema (List.mem_map_of_mem hf)
  | record value =>
      have hopen : Hangs fun _ => "z.record(z.string(), ".toList := Unbroken.hangs (by decide)
      have hclose : Hangs fun _ => [')'] := Unbroken.hangs (by decide)
      unfold Base.textAt
      exact (hopen.append (h value List.mem_cons_self)).append hclose
  | union variants =>
      have hopen : Hangs fun _ => "z.union([".toList := Unbroken.hangs (by decide)
      have hclose : Hangs fun _ => "])".toList := Unbroken.hangs (by decide)
      unfold Base.textAt
      exact (hopen.append (hangs_textOfAll h)).append hclose
  | discriminatedUnion discriminator variants =>
      have hopen : Hangs fun _ => "z.discriminatedUnion(".toList := Unbroken.hangs (by decide)
      have hlist : Hangs fun _ => ", [".toList := Unbroken.hangs (by decide)
      have hclose : Hangs fun _ => "])".toList := Unbroken.hangs (by decide)
      have hname := hopen.append (unbroken_quoted discriminator).hangs
      unfold Base.textAt
      exact ((hname.append hlist).append (hangs_textOfAll h)).append hclose
  | unsupported reason =>
      have hreason : Unbroken reason.toList := hb
      unfold Base.textAt
      exact (((show Unbroken "z.any() /* unsupported: ".toList by decide).append
        hreason).append (by decide)).hangs

theorem hangs_textAt (ho : Unbroken o.suffix.toList) {s : Schema} (hs : s.SingleLine) :
    Hangs (s.textAt o) := by
  induction s using induction_nested with
  | step s ih =>
      have hnested : ∀ t ∈ s.nested, Hangs (t.textAt o) :=
        fun t ht => ih t ht ((singleLine_iff.mp hs).2 t ht)
      have hbase := Base.hangs_textAt ho (singleLine_iff.mp hs).1
        fun t ht => hnested t (List.mem_append_left _ ht)
      have hops : Hangs fun d => Op.textOfAll o d s.ops := by
        simp only [Op.textOfAll_eq]
        exact hangs_flatMap fun op hop => Op.hangs_textAt fun t ht =>
          hnested t (List.mem_append_right _ (List.mem_flatMap.mpr ⟨op, hop, ht⟩))
      simp only [textAt_eq]
      exact hbase.append hops

theorem textAt_eq_indented (ho : Unbroken o.suffix.toList) {s : Schema} (hs : s.SingleLine)
    (k : Nat) : s.textAt o k = indented k (s.text o) := by
  have htext := hangs_textAt ho hs 0 k
  rw [Nat.zero_add] at htext
  exact htext.symm

end Schema

namespace Emit

/-! ## Modules -/

/-- Layout is compositional.  On its own a schema is written as its text.  At any depth it is
written as this text with more blanks after the line breaks, and the writer stays at the depth.  So
a module is its header and a declaration for each definition, initialized by the text of its schema
whatever has been written before. -/
theorem layout_compositional (o : EmitOptions) :
    (∀ s : Schema, (Page.mk [] 0).after (s.write o) = ⟨s.text o, 0⟩) ∧
    (Unbroken o.suffix.toList → ∀ s : Schema, s.SingleLine → ∀ x k,
      (Page.mk x k).after (s.write o) = ⟨x ++ indented k (s.text o), k⟩ ∧
        s.textAt o k = indented k (s.text o)) ∧
    (∀ (m : Bool × Definition) x, (Page.mk x 0).after (writeDefinition o m.1 m.2) =
      ⟨x ++ declaration o (isAnnotated m) m.2, 0⟩) ∧
    ∀ s : Synthesis, (Page.mk [] 0).after (writeModule o s) = ⟨moduleText s o, 0⟩ ∧
      moduleText s o = header o ++
        (marked s).flatMap (fun m => declaration o (isAnnotated m) m.2) ∧
      (marked s).map Prod.snd = s.all := by
  refine ⟨fun s => s.writes_write [] 0, ?_, after_writeDefinition o, ?_⟩
  · intro ho s hs x k
    have htext := s.textAt_eq_indented ho hs k
    exact ⟨htext ▸ s.writes_write x k, htext⟩
  · intro s
    exact ⟨after_writeModule o s, moduleText_eq s o, map_snd_marked s⟩

/-- An object with a check of keys, written as the catch-all of another one.  Two literals hold line
breaks. -/
theorem layout_compositional_of_check_in_catchall :
    let inner : Schema :=
      ⟨.object [⟨"a\nkey", .ref "Tag"⟩, ⟨"rest", .ofBase (.unsupported "tuple")⟩],
        [.keyCheck (.lazyRef "Node") ["x\ny"], .optional]⟩
    let s : Schema := ⟨.object [], [.catchall inner]⟩
    Unbroken EmitOptions.standard.suffix.toList ∧ s.SingleLine ∧
      (Page.mk ['x'] 2).after (s.write .standard) = ⟨'x' :: indented 2 (s.text .standard), 2⟩ := by
  intro inner s
  have hsuffix : Unbroken EmitOptions.standard.suffix.toList := by decide
  have htag : (Schema.ref "Tag").SingleLine :=
    Schema.singleLine_iff.mpr ⟨(by decide : Unbroken "Tag".toList), List.forall_mem_nil _⟩
  have hrest : (Schema.ofBase (.unsupported "tuple")).SingleLine :=
    Schema.singleLine_iff.mpr ⟨(by decide : Unbroken "tuple".toList), List.forall_mem_nil _⟩
  have hnode : (Schema.lazyRef "Node").SingleLine :=
    Schema.singleLine_iff.mpr ⟨(by decide : Unbroken "Node".toList), List.forall_mem_nil _⟩
  have hinner : inner.SingleLine := by
    refine Schema.singleLine_iff.mpr ⟨trivial, ?_⟩
    change ∀ t ∈ [_, _, _], Schema.SingleLine t
    simp only [List.forall_mem_cons]
    exact ⟨htag, hrest, hnode, List.forall_mem_nil _⟩
  have hs : s.SingleLine :=
    Schema.singleLine_iff.mpr ⟨trivial, List.forall_mem_singleton.mpr hinner⟩
  exact ⟨hsuffix, hs, ((layout_compositional .standard).2.1 hsuffix s hs ['x'] 2).1⟩

end Emit

end ServiceSchema
