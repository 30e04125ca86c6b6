import ServiceSchema.Emit.Registry
import ServiceSchema.Proofs.Synthesis.Extension
import ServiceSchema.Proofs.Synthesis.Scoping
/-!
# Reordered declarations

The order in which a description lists its types, interfaces, methods, unions and enumerations only
permutes the worklist.  Two permuted worklists with distinct names extend each other, so each of
their ordered parts is a sublist of the other; what is left is the circular group, which is sorted.
-/

namespace ServiceSchema

structure Interface.Reordered (i j : Interface) : Prop where
  name_eq : i.name = j.name
  methods_perm : i.methods.Perm j.methods

/-- The same description, with its declarations and the methods of each interface in some order.
Within a declaration and within a method nothing moves. -/
structure ServiceModel.Reordered (m m' : ServiceModel) : Prop where
  types_perm : m.types.Perm m'.types
  interfaces_perm : ∃ is, m.interfaces.Perm is ∧ List.Forall₂ Interface.Reordered is m'.interfaces
  unions_perm : m.unions.Perm m'.unions
  enums_perm : m.enums.Perm m'.enums

namespace Resolution

variable {es fs : List Entity}

/-- With distinct names, no tie is left to the order of the worklist. -/
theorem ofWorklist_eq_of_perm (hes : (es.map Entity.name).Nodup) (h : es.Perm fs) :
    ofWorklist es = ofWorklist fs := by
  have hfs : (fs.map Entity.name).Nodup := (h.map Entity.name).nodup_iff.mp hes
  have hordered : (ofWorklist es).ordered = (ofWorklist fs).ordered :=
    (ordered_sublist hes hfs h.subset).antisymm (ordered_sublist hfs hes h.symm.subset)
  have hperm : (ofWorklist es).circular.Perm (ofWorklist fs).circular := by
    have hall : (ofWorklist es).entities.Perm (ofWorklist fs).entities :=
      ((entities_perm es).trans h).trans (entities_perm fs).symm
    rw [entities, entities, hordered] at hall
    exact (List.perm_append_left_iff _).mp hall
  have hcircular : (ofWorklist es).circular = (ofWorklist fs).circular :=
    hperm.eq_of_pairwise (fun _ _ _ _ hlt hgt => absurd hgt (List.lt_asymm hlt))
      (pairwise_circular hes) (pairwise_circular hfs)
  calc ofWorklist es = ⟨(ofWorklist es).ordered, (ofWorklist es).circular⟩ := rfl
    _ = ⟨(ofWorklist fs).ordered, (ofWorklist fs).circular⟩ := by rw [hordered, hcircular]
    _ = ofWorklist fs := rfl

end Resolution

theorem Interface.Reordered.entities_perm {i j : Interface} (h : i.Reordered j) (naming : Naming) :
    (i.entities naming).Perm (j.entities naming) := by
  rw [Interface.entities, Interface.entities, h.name_eq]
  exact h.methods_perm.filterMap _

namespace ServiceModel

variable {m m' : ServiceModel} {naming : Naming}

theorem flatMap_entities_perm {is js : List Interface}
    (h : List.Forall₂ Interface.Reordered is js) :
    (is.flatMap (Interface.entities naming)).Perm (js.flatMap (Interface.entities naming)) := by
  induction h with
  | nil => exact .nil
  | cons hij _ ih =>
      rw [List.flatMap_cons, List.flatMap_cons]
      exact (hij.entities_perm naming).append ih

theorem Reordered.entities_perm (h : m.Reordered m') (naming : Naming) :
    (m.entities naming).Perm (m'.entities naming) := by
  obtain ⟨is, hperm, hmethods⟩ := h.interfaces_perm
  have hbags : (m.interfaces.flatMap (Interface.entities naming)).Perm
      (m'.interfaces.flatMap (Interface.entities naming)) :=
    (hperm.flatMap_right _).trans (flatMap_entities_perm hmethods)
  exact (((h.types_perm.map _).append hbags).append (h.unions_perm.map _)).append
    (h.enums_perm.map _)

theorem generate_ok_of_perm {s : Synthesis} (h : (m.entities naming).Perm (m'.entities naming))
    (hs : m.generate naming = .ok s) : m'.generate naming = .ok s := by
  obtain ⟨hes, rfl⟩ := generate_eq_ok_iff.mp hs
  refine generate_eq_ok_iff.mpr ⟨(h.map Entity.name).nodup_iff.mp hes, ?_⟩
  rw [Resolution.ofWorklist_eq_of_perm hes h]

theorem Reordered.generate_eq_ok_iff (h : m.Reordered m') {s : Synthesis} :
    m.generate naming = .ok s ↔ m'.generate naming = .ok s :=
  ⟨generate_ok_of_perm (h.entities_perm naming), generate_ok_of_perm (h.entities_perm naming).symm⟩

theorem generate_eq_error_iff :
    (∃ f, m.generate naming = .error f) ↔ ∀ s, m.generate naming ≠ .ok s := by
  cases m.generate naming <;> simp

/-- The order of the declarations matters neither for whether schemas are generated nor for which,
and so not for what a backend writes. -/
theorem generate_of_reordered (h : m.Reordered m') (naming : Naming) :
    ((∃ f, m.generate naming = .error f) ↔ ∃ f, m'.generate naming = .error f) ∧
    ∀ s s', m.generate naming = .ok s → m'.generate naming = .ok s' →
      s = s' ∧ ∀ b ∈ Backend.builtIn, ∀ o, b.render s o = b.render s' o := by
  constructor
  · rw [generate_eq_error_iff, generate_eq_error_iff]
    exact forall_congr' fun s => not_congr h.generate_eq_ok_iff
  · intro s s' hs hs'
    have hsame : s = s' := Except.ok.inj ((h.generate_eq_ok_iff.mp hs).symm.trans hs')
    exact ⟨hsame, fun b _ o => by rw [hsame]⟩

/-- A cycle, what depends on it, parameter bags of two interfaces and a union, listed in two
orders. -/
theorem generate_of_reordered_interfaces :
    let a : TypeDecl := ⟨"A", [.required "b" (.named "B")], none, []⟩
    let b : TypeDecl := ⟨"B", [.required "a" (.named "A")], none, []⟩
    let get : Method := ⟨"get", [.required "id" (.primitive .integer)], []⟩
    let put : Method := ⟨"put", [.required "value" (.named "Pet")], []⟩
    let pet : UnionDecl := ⟨"Pet", [.required "a" (.named "A"), .required "c" (.named "C")], none⟩
    let c : EnumDecl := ⟨"C", ["x", "y"]⟩
    let m : ServiceModel := ⟨[a, b], [⟨"pets", [get, put]⟩, ⟨"owners", [get]⟩], [pet], [c]⟩
    let m' : ServiceModel := ⟨[b, a], [⟨"owners", [get]⟩, ⟨"pets", [put, get]⟩], [pet], [c]⟩
    m.Reordered m' ∧
      ∃ s s', m.generate .pascal = .ok s ∧ m'.generate .pascal = .ok s' ∧ s = s' := by
  intro a b get put pet c m m'
  have h : m.Reordered m' :=
    { types_perm := .swap _ _ _
      interfaces_perm := ⟨_, .swap _ _ _, .cons ⟨rfl, .refl _⟩ (.cons ⟨rfl, .swap _ _ _⟩ .nil)⟩
      unions_perm := .refl _
      enums_perm := .refl _ }
  have hs : m.generate .pascal = .ok (Resolution.ofWorklist (m.entities .pascal)).synthesis :=
    ServiceModel.generate_eq_ok_iff.mpr ⟨by decide, rfl⟩
  have hs' : m'.generate .pascal = .ok (Resolution.ofWorklist (m'.entities .pascal)).synthesis :=
    ServiceModel.generate_eq_ok_iff.mpr ⟨by decide, rfl⟩
  exact ⟨h, _, _, hs, hs', ((generate_of_reordered h .pascal).2 _ _ hs hs').1⟩

end ServiceModel

end ServiceSchema
