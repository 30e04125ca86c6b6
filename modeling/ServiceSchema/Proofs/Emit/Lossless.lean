import ServiceSchema.Emit.Registry
import ServiceSchema.Proofs.Emit.Unambiguous
import ServiceSchema.Proofs.Json.Pretty
/-!
# A module or a dump determines its definitions

Two syntheses that are written as the same module have the same names and, up to the spelling of
numbers, the same schemas in the same order of emission.  Whether a definition belongs to the
circular group is not in the text, only whether it is annotated: the annotation also stands at a
definition with a lazy reference.

Unlike a module, a dump keeps the two groups of definitions apart, quotes every name and marks every
base and operation, so no condition on names or reasons is needed.  Of the options it holds only the
suffix of identifiers.
-/

namespace ServiceSchema

open Text (StopsRun flatMap_append_inj map_eq_of_forall₂)
open Emit

/-- The name and every reference are identifiers and no reason ends its comment. -/
structure Definition.Plain (d : Definition) : Prop where
  name : isIdentifier d.name.toList = true
  schema : d.schema.Plain

/-- Equality of definitions, numbers being compared by their text. -/
structure Definition.Alike (d e : Definition) : Prop where
  name : d.name = e.name
  schema : d.schema.Alike e.schema

namespace Emit

variable {o : EmitOptions} {x y : List Char}

/-- The definitions in the order of emission, each with whether it is in the circular group. -/
def marked (s : Synthesis) : List (Bool × Definition) :=
  s.definitions.map (Prod.mk false) ++ s.circular.map (Prod.mk true)

def isAnnotated (m : Bool × Definition) : Bool :=
  m.1 || m.2.schema.containsLazy

structure MarkedAlike (m n : Bool × Definition) : Prop where
  annotated : isAnnotated m = isAnnotated n
  definition : m.2.Alike n.2

/-! ## Definitions -/

def typeMark (annotated : Bool) : List Char :=
  if annotated then ": z.ZodTypeAny".toList else []

def declaration (o : EmitOptions) (annotated : Bool) (d : Definition) : List Char :=
  '\n' :: (exportWord o ++ "const ".toList ++ (o.identifier d.name).toList ++ typeMark annotated ++
    " = ".toList ++ d.schema.text o ++ ";\n".toList ++
    if o.infersTypes then inferredType o d.name else [])

theorem definition_eq_declaration (o : EmitOptions) (isCircular : Bool) (d : Definition) :
    definition o isCircular d = declaration o (isCircular || d.schema.containsLazy) d := rfl

theorem definition_append_eq (o : EmitOptions) (m : Bool × Definition) (z : List Char) :
    definition o m.1 m.2 ++ z = '\n' :: (exportWord o ++ ("const ".toList ++
      ((o.identifier m.2.name).toList ++ (typeMark (isAnnotated m) ++ (" = ".toList ++
        (m.2.schema.textAt o 0 ++ (";\n".toList ++
          ((if o.infersTypes then inferredType o m.2.name else []) ++ z)))))))) := by
  unfold isAnnotated
  simp only [definition, typeMark, Schema.text, List.cons_append, List.append_assoc]

theorem typeMark_append_inj {b c : Bool}
    (h : typeMark b ++ (" = ".toList ++ x) = typeMark c ++ (" = ".toList ++ y)) :
    b = c ∧ x = y := by
  cases b <;> cases c
  case false.false | true.true =>
    exact ⟨rfl, List.append_cancel_left (List.append_cancel_left h)⟩
  case false.true | true.false => simp [typeMark] at h

theorem stopsRun_typeMark_append (b : Bool) (x : List Char) :
    StopsRun isWordChar (typeMark b ++ (" = ".toList ++ x)) := by
  cases b <;> exact .cons rfl

theorem definition_append_inj (ho : WordSuffix o) {m n : Bool × Definition} (hm : m.2.Plain)
    (hn : n.2.Plain) (h : definition o m.1 m.2 ++ x = definition o n.1 n.2 ++ y) :
    MarkedAlike m n ∧ x = y := by
  have hends : ∀ z, Ends (";\n".toList ++ z) := fun z => ⟨";", by decide, '\n' :: z, rfl⟩
  rw [definition_append_eq, definition_append_eq] at h
  simp only [List.cons.injEq, true_and, List.append_cancel_left_eq] at h
  obtain ⟨hname, hrest⟩ := identifier_append_inj ho hm.name hn.name
    (stopsRun_typeMark_append _ _) (stopsRun_typeMark_append _ _) h
  obtain ⟨hannotated, hrest⟩ := typeMark_append_inj hrest
  obtain ⟨hschema, hend⟩ := Schema.determined ho hm.schema 0 _ _ _ hn.schema (hends _) (hends _)
    hrest
  rw [hname] at hend
  simp only [List.append_cancel_left_eq] at hend
  exact ⟨⟨hannotated, hname, hschema⟩, hend⟩

theorem MarkedAlike.definition_eq {m n : Bool × Definition} (h : MarkedAlike m n) :
    Emit.definition o m.1 m.2 = Emit.definition o n.1 n.2 := by
  have htext := Schema.writtenAlike o m.2.schema n.2.schema h.definition.schema 0
  have happend := definition_append_eq o m []
  rw [h.annotated, h.definition.name, htext, ← definition_append_eq o n []] at happend
  simpa using happend

/-! ## Modules -/

theorem map_snd_marked (s : Synthesis) : (marked s).map Prod.snd = s.all := by
  simp [marked, Synthesis.all, Function.comp_def]

theorem moduleText_eq (s : Synthesis) (o : EmitOptions) :
    moduleText s o = header o ++ (marked s).flatMap fun m => definition o m.1 m.2 := by
  simp [moduleText, marked, List.flatMap_map]

theorem plain_of_mem_marked {s : Synthesis} (hs : ∀ d ∈ s.all, d.Plain) {m : Bool × Definition}
    (hm : m ∈ marked s) : m.2.Plain :=
  hs m.2 (map_snd_marked s ▸ List.mem_map_of_mem hm)

/-- Two modules have one text when their definitions are alike and annotated alike. -/
theorem moduleText_eq_iff (ho : WordSuffix o) {s t : Synthesis} (hs : ∀ d ∈ s.all, d.Plain)
    (ht : ∀ d ∈ t.all, d.Plain) :
    moduleText s o = moduleText t o ↔ List.Forall₂ MarkedAlike (marked s) (marked t) := by
  rw [moduleText_eq, moduleText_eq, List.append_cancel_left_eq]
  constructor
  · intro h
    have hdefinitions := congrArg (· ++ []) h
    have hdefinition : ∀ m ∈ marked s, ∀ n ∈ marked t, ∀ v w, True → True →
        definition o m.1 m.2 ++ v = definition o n.1 n.2 ++ w → MarkedAlike m n ∧ v = w :=
      fun m hm n hn v w _ _ heq =>
        definition_append_inj ho (plain_of_mem_marked hs hm) (plain_of_mem_marked ht hn) heq
    have hnil : ∀ (m : Bool × Definition) z, definition o m.1 m.2 ++ z ≠ [] := by
      intro m z
      rw [definition_append_eq]
      exact List.cons_ne_nil _ _
    exact (flatMap_append_inj (fun _ => True) (· = []) (fun _ _ => trivial) (fun _ _ => trivial)
      hnil hdefinition rfl rfl hdefinitions).1
  · intro h
    rw [List.flatMap_def, List.flatMap_def,
      map_eq_of_forall₂ (fun m _ n hmn => hmn.definition_eq) h]

/-- A module determines the definitions of the synthesis in their order of emission. -/
theorem alike_of_moduleText_eq (ho : WordSuffix o) {s t : Synthesis} (hs : ∀ d ∈ s.all, d.Plain)
    (ht : ∀ d ∈ t.all, d.Plain) (h : moduleText s o = moduleText t o) :
    List.Forall₂ Definition.Alike s.all t.all := by
  have hmarked : List.Forall₂ MarkedAlike (marked s) (marked t) :=
    (moduleText_eq_iff ho hs ht).mp h
  rw [← map_snd_marked s, ← map_snd_marked t, List.forall₂_map_left_iff,
    List.forall₂_map_right_iff]
  exact hmarked.imp fun _ _ hmn => hmn.definition

/-- A definition with a lazy reference is annotated in either group, so both syntheses give one
module. -/
theorem alike_of_moduleText_eq_of_lazy_definition :
    let tag : Definition := ⟨"Tag", ⟨.enum ["\"a\"", "b"], [.default (.string "b")]⟩⟩
    let fields : List Schema.Field :=
      [⟨"next", ⟨.lazy "Node", [.array, .optional]⟩⟩, ⟨"a key", .ref "Tag"⟩,
        ⟨"rest", .ofBase (.unsupported "a / * tuple")⟩]
    let node : Definition := ⟨"Node", ⟨.object fields, [.keyCheck (.ref "Tag") ["next", "rest"]]⟩⟩
    let s : Synthesis := ⟨[tag, node], []⟩
    let t : Synthesis := ⟨[tag], [node]⟩
    moduleText s .standard = moduleText t .standard ∧
      List.Forall₂ Definition.Alike s.all t.all := by
  intro tag fields node s t
  have hlazy : definition .standard false node = definition .standard true node := rfl
  have htext : moduleText s .standard = moduleText t .standard := by
    simp [moduleText, s, t, hlazy]
  have hTag : isIdentifier "Tag".toList = true := by decide
  have hNode : isIdentifier "Node".toList = true := by decide
  have hreason : ¬ ['*', '/'] <:+: "a / * tuple".toList := by decide +kernel
  have htag : tag.Plain := ⟨hTag, Schema.plain_of_nested_eq_nil trivial rfl⟩
  have href : (Schema.ref "Tag").Plain := Schema.plain_of_nested_eq_nil hTag rfl
  have hnode : node.Plain := by
    refine ⟨hNode, Schema.plain_iff.mpr ⟨trivial, ?_⟩⟩
    change ∀ u ∈ [_, _, _, _], Schema.Plain u
    simp only [List.forall_mem_cons]
    exact ⟨Schema.plain_of_nested_eq_nil hNode rfl, href,
      Schema.plain_of_nested_eq_nil hreason rfl, href, List.forall_mem_nil _⟩
  have hplain : ∀ d ∈ [tag, node], d.Plain :=
    List.forall_mem_cons.mpr ⟨htag, List.forall_mem_cons.mpr ⟨hnode, List.forall_mem_nil _⟩⟩
  exact ⟨htext, alike_of_moduleText_eq (by decide) hplain hplain htext⟩

end Emit

/-! ## Dumps -/

theorem Definition.alike_of_toJson {d e : Definition} (h : d.toJson.Alike e.toJson) :
    d.Alike e := by
  simp only [toJson, Json.alike_object_iff, List.forall₂_cons, Json.alikeEntry_iff,
    Json.alike_string_iff, true_and, List.forall₂_nil_left_iff, and_true] at h
  exact ⟨h.1, Schema.alike_of_toJson d.schema e.schema h.2⟩

theorem Definition.forall₂_alike_of_toJson {ds es : List Definition}
    (h : (Json.array (ds.map toJson)).Alike (.array (es.map toJson))) :
    List.Forall₂ Definition.Alike ds es :=
  Schema.forall₂_of_alike_map (fun _ _ _ => alike_of_toJson) h

namespace Emit

theorem alike_document_of_dumpText_eq {s t : Synthesis} {o p : EmitOptions}
    (h : dumpText s o = dumpText t p) : (document s o).Alike (document t p) :=
  (Json.prettyAt_append_inj (.cons rfl) (.cons rfl) h).1

/-- A dump determines the suffix and, up to the spelling of numbers, each group of definitions. -/
theorem alike_of_dumpText_eq {s t : Synthesis} {o p : EmitOptions}
    (h : dumpText s o = dumpText t p) :
    o.suffix = p.suffix ∧ List.Forall₂ Definition.Alike s.definitions t.definitions ∧
      List.Forall₂ Definition.Alike s.circular t.circular := by
  have hdocument := alike_document_of_dumpText_eq h
  simp only [document, Json.alike_object_iff, List.forall₂_cons, Json.alikeEntry_iff,
    Json.alike_string_iff, true_and, List.forall₂_nil_left_iff, and_true] at hdocument
  obtain ⟨hsuffix, hdefinitions, hcircular⟩ := hdocument
  exact ⟨hsuffix, Definition.forall₂_alike_of_toJson hdefinitions,
    Definition.forall₂_alike_of_toJson hcircular⟩

/-- Options other than the suffix leave no trace in a dump; a name may hold anything. -/
theorem alike_of_dumpText_eq_of_other_import :
    let value : Json := .object [("kind", .string "ref"), ("ops", .array [.null, .bool true])]
    let tag : Definition := ⟨"\"Tag\"\n", ⟨.literal value, [.default value, .optional]⟩⟩
    let node : Definition := ⟨"Node", ⟨.object [⟨"", .lazyRef "Node"⟩], [.catchall (.ref "*/")]⟩⟩
    let s : Synthesis := ⟨[tag], [node]⟩
    let o : EmitOptions := { EmitOptions.standard with importPath := "zod/v4", isExported := false }
    dumpText s o = dumpText s .standard ∧ o.suffix = "Schema" ∧
      List.Forall₂ Definition.Alike s.definitions [tag] ∧
      List.Forall₂ Definition.Alike s.circular [node] := by
  intro value tag node s o
  have htext : dumpText s o = dumpText s .standard := rfl
  obtain ⟨hsuffix, hdefinitions, hcircular⟩ := alike_of_dumpText_eq htext
  exact ⟨htext, hsuffix, hdefinitions, hcircular⟩

end Emit

end ServiceSchema
