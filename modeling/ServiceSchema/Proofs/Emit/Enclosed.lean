import ServiceSchema.Proofs.Emit.Brackets
import ServiceSchema.Proofs.Emit.Lossless
/-!
# Schemas and modules between brackets

The text of a schema leaves the brackets as it found them, whatever its literals hold: names that
are written without quotes are identifiers, everything else is quoted or made of digits and signs,
and the reasons of unsupported schemas do not end their comments.
-/

namespace ServiceSchema

open Text (quoted)
open Emit

namespace Schema

variable {o : EmitOptions}

/-! ## Operations -/

theorem neutral_call (name : String) (hname : ∀ c ∈ name.toList, c ∉ marks) :
    Neutral (call name) := by
  have hdot : Neutral ('.' :: name.toList) :=
    neutral_of_notMem_marks (List.forall_mem_cons.mpr ⟨by decide, hname⟩)
  exact hdot.append (takes_of_read (b := []) rfl)

theorem neutral_callWith {name : String} {arg : List Char} (hname : ∀ c ∈ name.toList, c ∉ marks)
    (harg : Neutral arg) : Neutral (callWith name arg) := by
  have hdot : Neutral ('.' :: name.toList) :=
    neutral_of_notMem_marks (List.forall_mem_cons.mpr ⟨by decide, hname⟩)
  have hparens : Neutral ('(' :: (arg ++ [')'])) :=
    harg.enclosed (x := ['(']) (takes_of_read (a := []) rfl) (takes_of_read (b := []) rfl)
  exact hdot.append hparens

theorem neutral_keyCount {comparison : String} (hcomparison : ∀ c ∈ comparison.toList, c ∉ marks)
    (count : UInt64) (message : String) : Neutral (keyCount comparison count message) := by
  have hopen : Takes [] ".refine((value) => Object.keys(value).length ".toList [')'] :=
    takes_of_read rfl
  have hmessage : Takes [')'] ", \x7b message: ".toList ['\x7d', ')'] := takes_of_read rfl
  have hclose : Takes ['\x7d', ')'] " \x7d)".toList [] := takes_of_read rfl
  have hbound : Neutral (comparison.toList ++ [' ']) :=
    (neutral_of_notMem_marks hcomparison).append (neutral_of_notMem_marks (by decide))
  have htext : keyCount comparison count message =
      ".refine((value) => Object.keys(value).length ".toList ++ (comparison.toList ++ [' ']) ++
        countText count ++ ", \x7b message: ".toList ++ quoted message ++ " \x7d)".toList := by
    unfold keyCount
    simp only [List.append_assoc, List.cons_append, List.nil_append]
  rw [htext]
  exact (((((hopen.append (hbound.takes _)).append ((neutral_countText count).takes _)).append
    hmessage).append ((neutral_quoted message).takes _)).append hclose)

theorem takes_line {a b : List Char} {text : String}
    (h : Scan.read ⟨.code, a⟩ text.toList = some ⟨.code, b⟩) (d : Nat) : Takes a (line d text) b :=
  ((neutral_lineBreak d).takes a).append (takes_of_read h)

theorem Op.neutral_keyCheck {key : Schema} (hkey : ∀ d, Neutral (key.textAt o d)) (d : Nat)
    (known : List String) : Neutral ((Op.keyCheck key known).textAt o d) := by
  have hopen : Takes [] ".superRefine((value, ctx) => \x7b".toList ['\x7d', ')'] :=
    takes_of_read rfl
  have hset : Takes ['\x7d', ')'] (line (d + 1) "const known = new Set<string>(")
      [')', '\x7d', ')'] := takes_line rfl _
  have hknown : Takes [')', '\x7d', ')'] ");".toList ['\x7d', ')'] := takes_of_read rfl
  have hloop : Takes ['\x7d', ')'] (line (d + 1) "for (const key of Object.keys(value)) \x7b")
      ['\x7d', '\x7d', ')'] := takes_line rfl _
  have hskip : Takes ['\x7d', '\x7d', ')'] (line (d + 2) "if (known.has(key)) continue;")
      ['\x7d', '\x7d', ')'] := takes_line rfl _
  have hresult : Takes ['\x7d', '\x7d', ')'] (line (d + 2) "const result = ")
      ['\x7d', '\x7d', ')'] := takes_line rfl _
  have hparse : Takes ['\x7d', '\x7d', ')'] ".safeParse(key);".toList ['\x7d', '\x7d', ')'] :=
    takes_of_read rfl
  have htest : Takes ['\x7d', '\x7d', ')'] (line (d + 2) "if (!result.success) \x7b")
      ['\x7d', '\x7d', '\x7d', ')'] := takes_line rfl _
  have hissue : Takes ['\x7d', '\x7d', '\x7d', ')'] (line (d + 3) "ctx.addIssue(\x7b")
      ['\x7d', ')', '\x7d', '\x7d', '\x7d', ')'] := takes_line rfl _
  have hproperty : ∀ text : String, Scan.read ⟨.code, []⟩ text.toList = some ⟨.code, []⟩ →
      Neutral (line (d + 4) text) := fun _ h => takes_line h _
  have hcode := hproperty "code: z.ZodIssueCode.custom," rfl
  have hpath := hproperty "path: [key]," rfl
  have hmessage := hproperty
    "message: result.error.issues.map((issue) => issue.message).join(\"; \")," rfl
  have hissueEnd : Takes ['\x7d', ')', '\x7d', '\x7d', '\x7d', ')'] (line (d + 3) "\x7d);")
      ['\x7d', '\x7d', '\x7d', ')'] := takes_line rfl _
  have htestEnd : Takes ['\x7d', '\x7d', '\x7d', ')'] (line (d + 2) "\x7d")
      ['\x7d', '\x7d', ')'] := takes_line rfl _
  have hloopEnd : Takes ['\x7d', '\x7d', ')'] (line (d + 1) "\x7d") ['\x7d', ')'] :=
    takes_line rfl _
  have hclose : Takes ['\x7d', ')'] (line d "\x7d)") [] := takes_line rfl _
  have htoSet := ((hopen.append hset).append ((neutral_quotedList known).takes _)).append hknown
  have htoKey :=
    (((htoSet.append hloop).append hskip).append hresult).append ((hkey (d + 2)).takes _)
  have htoIssue := ((htoKey.append hparse).append htest).append hissue
  have htoMessage :=
    ((htoIssue.append (hcode.takes _)).append (hpath.takes _)).append (hmessage.takes _)
  unfold Op.textAt
  exact (((htoMessage.append hissueEnd).append htestEnd).append hloopEnd).append hclose

theorem Op.neutral_textAt {op : Op} (hnested : ∀ s ∈ op.nested, ∀ d, Neutral (s.textAt o d))
    (d : Nat) : Neutral (op.textAt o d) := by
  cases op with
  | int | nonempty | positive | nonnegative | negative | nonpositive | array | optional =>
      exact neutral_call _ (by decide)
  | min n | max n | length n => exact neutral_callWith (by decide) (neutral_countText n)
  | regex pattern =>
      have hpattern : Neutral ("new RegExp(".toList ++ quoted pattern ++ [')']) :=
        (neutral_quoted pattern).enclosed (takes_of_read (a := []) rfl)
          (takes_of_read (b := []) rfl)
      exact neutral_callWith (by decide) hpattern
  | gt n | gte n | lt n | lte n | multipleOf n =>
      exact neutral_callWith (by decide) (neutral_text n)
  | default value => exact neutral_callWith (by decide) (neutral_compact value)
  | catchall value =>
      exact neutral_callWith (by decide) (hnested value List.mem_cons_self d)
  | minKeys count message | maxKeys count message => exact neutral_keyCount (by decide) _ _
  | keyCheck key known => exact neutral_keyCheck (hnested key List.mem_cons_self) d known

/-! ## Bases -/

theorem neutral_textOfAll {ss : List Schema} (h : ∀ s ∈ ss, ∀ d, Neutral (s.textAt o d))
    (d : Nat) : Neutral (textOfAll o d ss) := by
  rw [textOfAll_eq]
  refine neutral_intercalate (neutral_of_notMem_marks (by decide)) fun p hp => ?_
  obtain ⟨s, hs, rfl⟩ := List.mem_map.mp hp
  exact h s hs d

theorem Field.neutral_textAt {f : Field} (h : ∀ d, Neutral (f.schema.textAt o d)) (d : Nat) :
    Neutral (f.textAt o d) := by
  have hcolon : Neutral [':', ' '] := neutral_of_notMem_marks (by decide)
  have hcomma : Neutral [','] := neutral_of_notMem_marks (by decide)
  rw [Field.textAt_eq]
  exact (neutral_lineBreak d).append
    ((neutral_property f.name).append (hcolon.append ((h d).append hcomma)))

theorem Base.neutral_object {fields : List Field}
    (h : ∀ f ∈ fields, ∀ d, Neutral (f.schema.textAt o d)) (d : Nat) :
    Neutral ((Base.object fields).textAt o d) := by
  cases fields with
  | nil =>
      unfold Base.textAt
      exact takes_of_read rfl
  | cons f fields =>
      have hfields : Neutral (Field.textOfAll o (d + 1) (f :: fields)) := by
        rw [Field.textOfAll_eq]
        exact neutral_flatMap fun g hg => Field.neutral_textAt (h g hg) (d + 1)
      have hclose : Takes ['\x7d', ')'] (line d "\x7d)") [] := takes_line rfl d
      have htext : (Base.object (f :: fields)).textAt o d =
          "z.object(\x7b".toList ++ Field.textOfAll o (d + 1) (f :: fields) ++ line d "\x7d)" := by
        rw [Field.textOfAll, line]
        unfold Base.textAt
        simp only [List.append_assoc]
      rw [htext]
      exact hfields.enclosed (takes_of_read rfl) hclose

theorem Base.neutral_textAt (ho : WordSuffix o) {b : Base} (hb : b.Plain)
    (hnested : ∀ s ∈ b.nested, ∀ d, Neutral (s.textAt o d)) (d : Nat) :
    Neutral (b.textAt o d) := by
  cases b with
  | string | any | null =>
      unfold Base.textAt
      exact takes_of_read rfl
  | number coerce | boolean coerce | date coerce =>
      unfold Base.textAt
      cases coerce <;> exact takes_of_read rfl
  | literal value =>
      unfold Base.textAt
      exact (neutral_compact value).enclosed (takes_of_read rfl) (takes_of_read (a := [')']) rfl)
  | «enum» values =>
      unfold Base.textAt
      exact (neutral_quotedList values).enclosed (takes_of_read rfl)
        (takes_of_read (a := [')']) rfl)
  | ref name => exact neutral_identifier ho hb
  | lazy name =>
      unfold Base.textAt
      exact (neutral_identifier ho hb).enclosed (takes_of_read rfl)
        (takes_of_read (a := [')']) rfl)
  | object fields =>
      exact Base.neutral_object (fun f hf => hnested f.schema (List.mem_map_of_mem hf)) d
  | record value =>
      unfold Base.textAt
      exact (hnested value List.mem_cons_self d).enclosed (takes_of_read rfl)
        (takes_of_read (a := [')']) rfl)
  | union variants =>
      unfold Base.textAt
      exact (neutral_textOfAll hnested d).enclosed (takes_of_read rfl)
        (takes_of_read (a := [']', ')']) rfl)
  | discriminatedUnion discriminator variants =>
      have hopen : Takes [] "z.discriminatedUnion(".toList [')'] := takes_of_read rfl
      have hname := hopen.append ((neutral_quoted discriminator).takes _)
      have hlist : Takes [')'] ", [".toList [']', ')'] := takes_of_read rfl
      unfold Base.textAt
      exact (neutral_textOfAll hnested d).enclosed (hname.append hlist) (takes_of_read rfl)
  | unsupported reason =>
      unfold Base.textAt
      exact neutral_comment hb

/-- The text of a schema can stand anywhere in code. -/
theorem neutral_textAt (ho : WordSuffix o) {s : Schema} (hs : s.Plain) (d : Nat) :
    Neutral (s.textAt o d) := by
  induction s using induction_nested generalizing d with
  | step s ih =>
      have hnested : ∀ t ∈ s.nested, ∀ d, Neutral (t.textAt o d) :=
        fun t ht d => ih t ht (hs.nested ht) d
      have hbase := Base.neutral_textAt ho (plain_iff.mp hs).1
        (fun t ht => hnested t (List.mem_append_left _ ht)) d
      have hops : Neutral (Op.textOfAll o d s.ops) := by
        rw [Op.textOfAll_eq]
        exact neutral_flatMap fun op hop => Op.neutral_textAt (fun t ht =>
          hnested t (List.mem_append_right _ (List.mem_flatMap.mpr ⟨op, hop, ht⟩))) d
      rw [textAt_eq]
      exact hbase.append hops

end Schema

namespace Emit

variable {o : EmitOptions}

/-! ## Modules -/

theorem neutral_header (o : EmitOptions) : Neutral (header o) :=
  (neutral_quoted o.importPath).enclosed (takes_of_read (a := []) rfl) (takes_of_read rfl)

theorem neutral_exportWord (o : EmitOptions) : Neutral (exportWord o) := by
  unfold exportWord
  split <;> exact takes_of_read rfl

theorem neutral_typeMark (annotated : Bool) : Neutral (typeMark annotated) := by
  cases annotated <;> exact takes_of_read rfl

theorem neutral_inferredType (ho : WordSuffix o) {name : String}
    (hname : isIdentifier name.toList = true) : Neutral (inferredType o name) := by
  have hplain : Neutral name.toList :=
    neutral_of_forall (p := isIdentifierRest) (by decide) fun _ => isIdentifierRest_of_mem hname
  have htype : Neutral "type ".toList := neutral_of_notMem_marks (by decide)
  have hinfer : Neutral " = z.infer<typeof ".toList := neutral_of_notMem_marks (by decide)
  have hend : Neutral ">;\n".toList := neutral_of_notMem_marks (by decide)
  exact (((((neutral_exportWord o).append htype).append hplain).append hinfer).append
    (neutral_identifier ho hname)).append hend

theorem neutral_definition (ho : WordSuffix o) {m : Bool × Definition} (hm : m.2.Plain) :
    Neutral (definition o m.1 m.2) := by
  have hbreak : Neutral ['\n'] := neutral_of_notMem_marks (by decide)
  have hconst : Neutral "const ".toList := neutral_of_notMem_marks (by decide)
  have hequals : Neutral " = ".toList := neutral_of_notMem_marks (by decide)
  have hend : Neutral ";\n".toList := neutral_of_notMem_marks (by decide)
  have htype : Neutral (if o.infersTypes then inferredType o m.2.name else []) := by
    split
    · exact neutral_inferredType ho hm.name
    · exact neutral_nil
  have htext := definition_append_eq o m []
  rw [List.append_nil, List.append_nil] at htext
  rw [htext]
  exact hbreak.append ((neutral_exportWord o).append (hconst.append
    ((neutral_identifier ho hm.name).append ((neutral_typeMark _).append (hequals.append
      ((Schema.neutral_textAt ho hm.schema 0).append (hend.append htype)))))))

/-- A module of plain definitions is well bracketed. -/
theorem wellBracketed_moduleText (ho : WordSuffix o) {s : Synthesis} (hs : ∀ d ∈ s.all, d.Plain) :
    WellBracketed (moduleText s o) := by
  rw [moduleText_eq]
  exact ((neutral_header o).append (neutral_flatMap fun m hm =>
    neutral_definition ho (plain_of_mem_marked hs hm))).wellBracketed

end Emit

end ServiceSchema
