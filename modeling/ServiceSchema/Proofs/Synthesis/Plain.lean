import ServiceSchema.Proofs.Emit.Enclosed
import ServiceSchema.Proofs.Schema.Mentions
import ServiceSchema.Proofs.Synthesis.Conservation
/-!
# No text of a description escapes its place in the module

The references of a generated schema are type names of its entity, and its comments hold one of two
fixed reasons.  So once the names are identifiers, the definitions are plain and their module is
well bracketed; the other texts of a description may hold anything.
-/

namespace ServiceSchema

open Schema Emit

theorem Schema.Base.plain_of_target? {b : Base}
    (htarget : ∀ n, b.target? = some n → isIdentifier n.toList = true)
    (hreason : ∀ reason, b = .unsupported reason → ¬ ['*', '/'] <:+: reason.toList) : b.Plain := by
  cases b with
  | ref n | lazy n => exact htarget n rfl
  | unsupported reason => exact hreason reason rfl
  | _ => trivial

namespace Member

theorem base_primitiveSchema_ne_unsupported (m : Member) (p : Primitive) (reason : String) :
    (m.primitiveSchema p).base ≠ .unsupported reason := by
  have hnumber : ∀ integral, (m.numberSchema integral).base ≠ .unsupported reason := by
    intro integral
    unfold numberSchema
    split <;> exact Base.noConfusion
  cases p with
  | string =>
      change m.stringSchema.base ≠ _
      unfold stringSchema
      split
      · exact Base.noConfusion
      split <;> exact Base.noConfusion
  | number | float | double => exact hnumber false
  | integer | long => exact hnumber true
  | boolean =>
      change m.booleanSchema.base ≠ _
      unfold booleanSchema
      split <;> exact Base.noConfusion
  | null | date | dateTime | binary | untyped => exact Base.noConfusion

theorem base_schema_ne_unsupported (m : Member) (sc : Scope) (role : Role) (reason : String) :
    (m.schema sc role).base ≠ .unsupported reason := by
  change (m.elementSchema sc).base ≠ _
  unfold elementSchema
  split
  · exact m.base_primitiveSchema_ne_unsupported _ reason
  · unfold Scope.reference
    split <;> exact Base.noConfusion

end Member

namespace Entity

variable {e : Entity} {c : List String} {t : Schema} {reason : String}

theorem mem_reasons_of_within (h : Within t (e.schema c)) (ht : t.base = .unsupported reason) :
    reason ∈ Union.reasons := by
  rcases fromMember_or_base_of_within h with ⟨m, -, role, rfl⟩ | hown | hany
  · exact absurd ht (m.base_schema_ne_unsupported _ _ _)
  · rw [ht] at hown
    exact hown
  · rw [ht] at hany
    cases hany

theorem plain_schema (h : ∀ n ∈ e.typeNames, isIdentifier n.toList = true) (c : List String) :
    (e.schema c).Plain := by
  have hreasons : ∀ reason ∈ Union.reasons, ¬ ['*', '/'] <:+: reason.toList := by
    decide +kernel
  intro t ht
  refine Base.plain_of_target? (fun n hn => ?_)
    fun reason hbase => hreasons reason (mem_reasons_of_within ht hbase)
  obtain ⟨m, hm, role, rfl⟩ := fromMember_of_within ht hn
  exact h n (mem_typeNames.mpr ⟨m, hm, Member.name?_of_base_eq rfl hn⟩)

end Entity

namespace ServiceModel

open Resolution

variable {m : ServiceModel} {naming : Naming} {s : Synthesis} {o : EmitOptions}

/-- Identifiers as names are enough for generated definitions to be plain. -/
theorem plain_of_generate (h : m.generate naming = .ok s)
    (hnames : ∀ n ∈ m.entityNames naming, isIdentifier n.toList = true)
    (htypes : ∀ e ∈ m.entities naming, ∀ n ∈ e.typeNames, isIdentifier n.toList = true) :
    ∀ d ∈ s.all, d.Plain := by
  obtain ⟨-, rfl⟩ := generate_eq_ok_iff.mp h
  rw [all_synthesis]
  intro d hd
  obtain ⟨e, he, rfl⟩ := List.mem_map.mp hd
  have hmem : e ∈ m.entities naming := (entities_perm _).mem_iff.mp he
  refine ⟨hnames e.name ?_, Entity.plain_schema (htypes e hmem) _⟩
  rw [← map_name_entities]
  exact List.mem_map_of_mem hmem

/-- No text of a description escapes its place: if the names are identifiers, the brackets of the
module outside literals and comments match, no literal is broken, and the module ends outside
literals and comments. -/
theorem generate_wellBracketed (h : m.generate naming = .ok s)
    (hnames : ∀ n ∈ m.entityNames naming, isIdentifier n.toList = true)
    (htypes : ∀ e ∈ m.entities naming, ∀ n ∈ e.typeNames, isIdentifier n.toList = true)
    (ho : WordSuffix o) : WellBracketed (moduleText s o) :=
  wellBracketed_moduleText ho (plain_of_generate h hnames htypes)

/-- Field names, patterns, constants, keys, discriminators and the import path try to leave their
places: with quotes, brackets, comments and line breaks. -/
theorem generate_wellBracketed_of_hostile_texts :
    let item : Member := (Member.required "a\"b(\n" (.primitive .string)).withRule
      (.pattern "*/ \" [\\(")
    let state : Member := (Member.optional "//" (.primitive .boolean)).withConstant
      (.object [("\x7b\n", .array [.string "\\\"", .null])])
    let map : MapExtension := ⟨(Member.required "" (.named "Color")),
      (Member.required "" (.named "Item")).array, ["state)", "\r"]⟩
    let m : ServiceModel :=
      ⟨[⟨"Item", [item, state], some map, [.keys ⟨some 1, none⟩]⟩], [],
        [⟨"Any", [.required "" (.named "Item"), .required "" (.named "Tag")], some "type\"\x7d"⟩,
          ⟨"Tag", [], none⟩],
        [⟨"Color", ["\"]", "/* red", "\n"]⟩]⟩
    let o : EmitOptions := ⟨true, true, "Schema", "zod\"; ([\n"⟩
    ∃ s, m.generate .pascal = .ok s ∧ WellBracketed (moduleText s o) := by
  intro item state map m o
  have hgenerate : m.generate .pascal = .ok (ofWorklist (m.entities .pascal)).synthesis :=
    generate_eq_ok_iff.mpr ⟨by decide, rfl⟩
  have hnames : ∀ n ∈ m.entityNames .pascal, isIdentifier n.toList = true := by decide +kernel
  have htypes : ∀ e ∈ m.entities .pascal, ∀ n ∈ e.typeNames, isIdentifier n.toList = true := by
    decide +kernel
  exact ⟨_, hgenerate, generate_wellBracketed hgenerate hnames htypes (by decide)⟩

end ServiceModel

end ServiceSchema
