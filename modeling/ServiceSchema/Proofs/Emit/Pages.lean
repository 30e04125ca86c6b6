import ServiceSchema.Proofs.Emit.Lossless
/-!
# Modules written on a page

A module can be written from its first line to its last by a writer that keeps count of the depth:
it goes deeper before the lines of an object or of a check of keys and comes back after them.  What
it puts on the page is the text of the module.  A schema in particular adds its text at the depth
where the writer stands, and leaves the writer at this depth.
-/

namespace ServiceSchema

open Text (quoted)
open Json (lineBreak)

namespace Emit

/-- What has been written, and the depth of the line that is written next. -/
structure Page where
  text : List Char
  depth : Nat

abbrev Writing := StateM Page Unit

namespace Writing

def put (x : List Char) : Writing :=
  modify fun p => { p with text := p.text ++ x }

def putIf (b : Bool) (x : List Char) : Writing :=
  if b then put x else return

def endLine : Writing :=
  put ['\n']

def margin : Writing :=
  modify fun p => { p with text := p.text ++ List.replicate (2 * p.depth) ' ' }

def startLine (text : String) : Writing := do
  margin
  put text.toList

def putLine (text : String) : Writing := do
  startLine text
  endLine

def indent : Writing :=
  modify fun p => { p with depth := p.depth + 1 }

def dedent : Writing :=
  modify fun p => { p with depth := p.depth - 1 }

end Writing

def Page.after (p : Page) (w : Writing) : Page :=
  (w.run p).2

end Emit

open Emit Writing

namespace Schema

mutual

def write (o : EmitOptions) : Schema → Writing
  | ⟨base, ops⟩ => do
    base.write o
    Op.writeAll o ops

/-- A base that nests no schema is written in one piece. -/
def Base.write (o : EmitOptions) : Base → Writing
  | .object [] => put "z.object(\x7b\x7d)".toList
  | .object (f :: fs) => do
    put "z.object(\x7b".toList
    endLine
    indent
    f.write o
    Field.writeAll o fs
    dedent
    startLine "\x7d)"
  | .record value => do
    put "z.record(z.string(), ".toList
    value.write o
    put [')']
  | .union variants => do
    put "z.union([".toList
    writeAll o variants
    put "])".toList
  | .discriminatedUnion discriminator variants => do
    put "z.discriminatedUnion(".toList
    put (quoted discriminator)
    put ", [".toList
    writeAll o variants
    put "])".toList
  | base => put (base.textAt o 0)

def Op.write (o : EmitOptions) : Op → Writing
  | .catchall value => do
    put ".catchall(".toList
    value.write o
    put [')']
  | .keyCheck key known => do
    put ".superRefine((value, ctx) => \x7b".toList
    endLine
    indent
    startLine "const known = new Set<string>("
    put (quotedList known)
    put ");".toList
    endLine
    putLine "for (const key of Object.keys(value)) \x7b"
    indent
    putLine "if (known.has(key)) continue;"
    startLine "const result = "
    key.write o
    put ".safeParse(key);".toList
    endLine
    putLine "if (!result.success) \x7b"
    indent
    putLine "ctx.addIssue(\x7b"
    indent
    putLine "code: z.ZodIssueCode.custom,"
    putLine "path: [key],"
    putLine "message: result.error.issues.map((issue) => issue.message).join(\"; \"),"
    dedent
    putLine "\x7d);"
    dedent
    putLine "\x7d"
    dedent
    putLine "\x7d"
    dedent
    startLine "\x7d)"
  | op => put (op.textAt o 0)

def Field.write (o : EmitOptions) : Field → Writing
  | ⟨name, schema⟩ => do
    margin
    put (property name)
    put [':', ' ']
    schema.write o
    put [',']
    endLine

def writeAll (o : EmitOptions) : List Schema → Writing
  | [] => return
  | [s] => s.write o
  | s :: ss => do
    s.write o
    put [',', ' ']
    writeAll o ss

def Field.writeAll (o : EmitOptions) : List Field → Writing
  | [] => return
  | f :: fs => do
    f.write o
    Field.writeAll o fs

def Op.writeAll (o : EmitOptions) : List Op → Writing
  | [] => return
  | op :: ops => do
    op.write o
    Op.writeAll o ops

end

end Schema

namespace Emit

def writeDefinition (o : EmitOptions) (isCircular : Bool) (d : Definition) : Writing := do
  endLine
  put (exportWord o)
  put "const ".toList
  put (o.identifier d.name).toList
  putIf (isCircular || d.schema.containsLazy) ": z.ZodTypeAny".toList
  put " = ".toList
  d.schema.write o
  put ";\n".toList
  putIf o.infersTypes (inferredType o d.name)

def writeModule (o : EmitOptions) (s : Synthesis) : Writing := do
  put (header o)
  forM s.definitions (writeDefinition o false)
  forM s.circular (writeDefinition o true)

/-! ## Single steps -/

namespace Page

variable {x y : List Char} {d : Nat}

-- The parentheses keep `simp` from using these steps by definition alone: a schema is written in
-- many steps, and the kernel would have to repeat them all at once.

@[simp] theorem after_bind (p : Page) (w v : Writing) :
    p.after (w >>= fun _ => v) = (p.after w).after v := (rfl)

@[simp] theorem after_put : (mk x d).after (put y) = ⟨x ++ y, d⟩ := (rfl)

@[simp] theorem after_putIf {b : Bool} :
    (mk x d).after (putIf b y) = ⟨x ++ if b then y else [], d⟩ := by
  cases b with
  | true => rfl
  | false => exact congrArg (mk · d) (List.append_nil x).symm

@[simp] theorem after_indent : (mk x d).after indent = ⟨x, d + 1⟩ := (rfl)

@[simp] theorem after_dedent : (mk x (d + 1)).after dedent = ⟨x, d⟩ := (rfl)

@[simp] theorem after_endLine : (mk x d).after endLine = ⟨x ++ ['\n'], d⟩ := (rfl)

/-- After a line break the blanks belong to it. -/
@[simp] theorem after_margin : (mk (x ++ ['\n']) d).after margin = ⟨x ++ lineBreak d, d⟩ := by
  change mk (x ++ ['\n'] ++ List.replicate (2 * d) ' ') d = _
  rw [List.append_assoc]
  rfl

@[simp] theorem after_startLine {text : String} :
    (mk (x ++ ['\n']) d).after (startLine text) = ⟨x ++ line d text, d⟩ := by
  rw [startLine, after_bind, after_margin, after_put, line, List.append_assoc]

@[simp] theorem after_putLine {text : String} :
    (mk (x ++ ['\n']) d).after (putLine text) = ⟨x ++ line d text ++ ['\n'], d⟩ := by
  rw [putLine, after_bind, after_startLine, after_endLine]

end Page

/-- At any depth a writer appends the text that belongs to the depth, and stays there. -/
def Writes (w : Writing) (f : Nat → List Char) : Prop :=
  ∀ x d, (Page.mk x d).after w = ⟨x ++ f d, d⟩

end Emit

namespace Schema

variable {o : EmitOptions}

/-! ## Operations -/

theorem Op.writes_keyCheck {key : Schema} (hkey : Writes (key.write o) (key.textAt o))
    (known : List String) :
    Writes ((Op.keyCheck key known).write o) ((Op.keyCheck key known).textAt o) := by
  intro x d
  unfold Op.write Op.textAt
  simp only [Page.after_bind, Page.after_put, Page.after_endLine, Page.after_indent,
    Page.after_dedent, Page.after_startLine, Page.after_putLine, hkey _ _]
  simp only [List.append_assoc]

theorem Op.writes_write {op : Op} (h : ∀ s ∈ op.nested, Writes (s.write o) (s.textAt o)) :
    Writes (op.write o) (op.textAt o) := by
  cases op with
  | catchall value =>
      intro x d
      unfold Op.write Op.textAt callWith
      simp only [Page.after_bind, Page.after_put, h value List.mem_cons_self _ _]
      simp
  | keyCheck key known => exact writes_keyCheck (h key List.mem_cons_self) known
  | _ => exact fun _ _ => rfl

theorem Op.writes_writeAll {ops : List Op} (h : ∀ op ∈ ops, Writes (op.write o) (op.textAt o)) :
    Writes (Op.writeAll o ops) fun d => Op.textOfAll o d ops := by
  induction ops with
  | nil => exact fun x d => congrArg (Page.mk · d) (List.append_nil x).symm
  | cons op ops ih =>
      obtain ⟨hop, hops⟩ := List.forall_mem_cons.mp h
      intro x d
      simp only [Op.writeAll, Page.after_bind, hop _ _, ih hops _ _, Op.textOfAll,
        List.append_assoc]

/-! ## Bases -/

theorem writes_writeAll {ss : List Schema} (h : ∀ s ∈ ss, Writes (s.write o) (s.textAt o)) :
    Writes (writeAll o ss) fun d => textOfAll o d ss := by
  induction ss with
  | nil => exact fun x d => congrArg (Page.mk · d) (List.append_nil x).symm
  | cons s ss ih =>
      obtain ⟨hs, hss⟩ := List.forall_mem_cons.mp h
      cases ss with
      | nil => exact hs
      | cons t ts =>
          intro x d
          simp only [writeAll, Page.after_bind, Page.after_put, hs _ _, ih hss _ _, textOfAll,
            List.append_assoc, List.cons_append, List.nil_append]

theorem Field.after_write {f : Field} (h : Writes (f.schema.write o) (f.schema.textAt o))
    (x : List Char) (d : Nat) : (Page.mk (x ++ ['\n']) d).after (f.write o) =
      ⟨x ++ f.textAt o d ++ ['\n'], d⟩ := by
  obtain ⟨name, schema⟩ := f
  simp only [Field.write, Page.after_bind, Page.after_margin, Page.after_put, Page.after_endLine,
    h _ _, Field.textAt]
  simp

theorem Field.after_writeAll {fs : List Field}
    (h : ∀ f ∈ fs, Writes (f.schema.write o) (f.schema.textAt o)) (x : List Char) (d : Nat) :
    (Page.mk (x ++ ['\n']) d).after (Field.writeAll o fs) =
      ⟨x ++ Field.textOfAll o d fs ++ ['\n'], d⟩ := by
  induction fs generalizing x with
  | nil =>
      rw [Field.textOfAll, List.append_nil]
      rfl
  | cons f fs ih =>
      obtain ⟨hf, hfs⟩ := List.forall_mem_cons.mp h
      rw [Field.writeAll, Page.after_bind, Field.after_write hf, ih hfs, Field.textOfAll]
      simp only [List.append_assoc]

theorem Base.writes_object {fs : List Field}
    (h : ∀ f ∈ fs, Writes (f.schema.write o) (f.schema.textAt o)) :
    Writes ((Base.object fs).write o) ((Base.object fs).textAt o) := by
  intro x d
  cases fs with
  | nil => rfl
  | cons f fs =>
      obtain ⟨hf, hfs⟩ := List.forall_mem_cons.mp h
      unfold Base.write Base.textAt
      simp only [Page.after_bind, Page.after_put, Page.after_endLine, Page.after_indent,
        Field.after_write hf, Field.after_writeAll hfs, Page.after_dedent, Page.after_startLine,
        line]
      simp only [List.append_assoc]

theorem Base.writes_write {b : Base} (h : ∀ s ∈ b.nested, Writes (s.write o) (s.textAt o)) :
    Writes (b.write o) (b.textAt o) := by
  cases b with
  | object fields => exact writes_object fun f hf => h f.schema (List.mem_map_of_mem hf)
  | record value =>
      intro x d
      unfold Base.write Base.textAt
      simp only [Page.after_bind, Page.after_put, h value List.mem_cons_self _ _,
        List.append_assoc]
  | union variants =>
      have hvariants : Writes (writeAll o variants) fun d => textOfAll o d variants :=
        writes_writeAll h
      intro x d
      unfold Base.write Base.textAt
      simp only [Page.after_bind, Page.after_put, hvariants _ _, List.append_assoc]
  | discriminatedUnion discriminator variants =>
      have hvariants : Writes (writeAll o variants) fun d => textOfAll o d variants :=
        writes_writeAll h
      intro x d
      unfold Base.write Base.textAt
      simp only [Page.after_bind, Page.after_put, hvariants _ _, List.append_assoc]
  | _ => exact fun _ _ => rfl

/-- A schema is written at the depth of the writer, who stays at this depth. -/
theorem writes_write (s : Schema) : Writes (s.write o) (s.textAt o) := by
  induction s using induction_nested with
  | step s ih =>
      have hbase := Base.writes_write fun t ht => ih t (List.mem_append_left _ ht)
      have hops := Op.writes_writeAll fun op hop => Op.writes_write fun t ht =>
        ih t (List.mem_append_right _ (List.mem_flatMap.mpr ⟨op, hop, ht⟩))
      intro x d
      obtain ⟨base, ops⟩ := s
      simp only [write, Page.after_bind, hbase _ _, hops _ _, textAt_eq, List.append_assoc]

end Schema

namespace Emit

variable {o : EmitOptions}

/-! ## Modules -/

theorem after_writeDefinition (o : EmitOptions) (m : Bool × Definition) (x : List Char) :
    (Page.mk x 0).after (writeDefinition o m.1 m.2) =
      ⟨x ++ declaration o (isAnnotated m) m.2, 0⟩ := by
  unfold writeDefinition declaration isAnnotated typeMark
  simp only [Page.after_bind, Page.after_put, Page.after_putIf, Page.after_endLine,
    Schema.writes_write _ _ _, Schema.text]
  simp only [List.append_assoc, List.cons_append, List.nil_append]

theorem after_forM {α : Type} {w : α → Writing} {f : α → List Char} {as : List α}
    (h : ∀ a ∈ as, ∀ x, (Page.mk x 0).after (w a) = ⟨x ++ f a, 0⟩) (x : List Char) :
    (Page.mk x 0).after (forM as w) = ⟨x ++ as.flatMap f, 0⟩ := by
  induction as generalizing x with
  | nil => exact congrArg (Page.mk · 0) (List.append_nil x).symm
  | cons a as ih =>
      obtain ⟨ha, has⟩ := List.forall_mem_cons.mp h
      rw [List.forM_cons, Page.after_bind, ha, ih has, List.flatMap_cons, List.append_assoc]

/-- The text of a module is what has been written when its last definition has. -/
theorem after_writeModule (o : EmitOptions) (s : Synthesis) :
    (Page.mk [] 0).after (writeModule o s) = ⟨moduleText s o, 0⟩ := by
  unfold writeModule moduleText
  rw [Page.after_bind, Page.after_put, Page.after_bind,
    after_forM fun d _ => after_writeDefinition o (false, d),
    after_forM fun d _ => after_writeDefinition o (true, d)]
  rfl

end Emit

end ServiceSchema
