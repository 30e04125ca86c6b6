import ServiceSchema.Model.Format
import ServiceSchema.Model.Service
import ServiceSchema.Proofs.Json.Guarantees
/-!
# What every description that was read satisfies

Types are those that their tags stand for, constants and defaults are canonical and not null, and
the locations of parameters are in the order of their names.  Each reader of a record establishes
this for its own fields, whichever form the record has in the text.
-/

namespace ServiceSchema

open Json (Yields Canonical Increasing yields_true yields_list yields_nullable)

/-! ## Types -/

namespace TypeRef

theorem ofTag_tag_primitive (p : Primitive) : ofTag p.tag = primitive p := by
  cases p <;> decide

theorem ofTag_tag_ofTag (tag : String) : ofTag (ofTag tag).tag = ofTag tag := by
  cases htag : ofTag tag with
  | primitive p => exact ofTag_tag_primitive p
  | named name =>
      obtain rfl : tag = name := by
        unfold ofTag at htag
        split at htag
        · cases htag
        · exact named.inj htag
      exact htag

theorem ne_tag_of_ofTag {t : TypeRef} (h : ofTag t.tag = t) {name : String} (ht : t = named name)
    (p : Primitive) : name ≠ p.tag := by
  rintro rfl
  subst ht
  exact absurd ((ofTag_tag_primitive p).symm.trans h) TypeRef.noConfusion

end TypeRef

/-! ## Parts of descriptions -/

/-- What holds of a member whose fields were read where `d` brackets could still be opened. -/
structure Member.Readable (d : Nat) (m : Member) : Prop where
  type : TypeRef.ofTag m.type.tag = m.type
  constant : ∀ j ∈ m.constant, Canonical d j ∧ j ≠ .null
  default : ∀ j ∈ m.default, Canonical d j ∧ j ≠ .null

structure MapExtension.Readable (d : Nat) (x : MapExtension) : Prop where
  key : x.key.Readable d
  value : x.value.Readable d

structure TypeDecl.Readable (d : Nat) (t : TypeDecl) : Prop where
  fields : ∀ m ∈ t.fields, m.Readable d
  map : ∀ x ∈ t.map, x.Readable d

structure Method.Readable (d : Nat) (m : Method) : Prop where
  params : ∀ p ∈ m.params, p.Readable d
  http : Increasing m.http

def Interface.Readable (d : Nat) (i : Interface) : Prop := ∀ m ∈ i.methods, m.Readable d

def UnionDecl.Readable (d : Nat) (u : UnionDecl) : Prop := ∀ m ∈ u.variants, m.Readable d

/-- Parameters stand two brackets deeper than fields and variants. -/
structure ServiceModel.Readable (d : Nat) (m : ServiceModel) : Prop where
  types : ∀ t ∈ m.types, t.Readable (d + 2)
  interfaces : ∀ i ∈ m.interfaces, i.Readable d
  unions : ∀ u ∈ m.unions, u.Readable (d + 2)

def ServiceModel.members (m : ServiceModel) : List Member :=
  m.types.flatMap (fun t => t.entity.members) ++
    m.interfaces.flatMap (fun i => i.methods.flatMap Method.params) ++
    m.unions.flatMap UnionDecl.variants

theorem ServiceModel.Readable.exists_readable {d : Nat} {m : ServiceModel} (hm : m.Readable d)
    {x : Member} (hx : x ∈ m.members) : ∃ e, x.Readable e := by
  simp only [members, List.mem_append, List.mem_flatMap] at hx
  rcases hx with (⟨t, ht, hx⟩ | ⟨i, hi, method, hmethod, hx⟩) | ⟨u, hu, hx⟩
  · obtain ⟨hfields, hmap⟩ := hm.types t ht
    rcases List.mem_append.mp hx with hx | hx
    · exact ⟨_, hfields x hx⟩
    · cases hextension : t.map with
      | none => simp [hextension] at hx
      | some extension =>
          have hreadable := hmap extension hextension
          simp only [hextension, List.mem_cons, List.not_mem_nil, or_false] at hx
          rcases hx with rfl | rfl
          · exact ⟨_, hreadable.key⟩
          · exact ⟨_, hreadable.value⟩
  · exact ⟨_, (hm.interfaces i hi method hmethod).params x hx⟩
  · exact ⟨_, hm.unions u hu x hx⟩

/-! ## Readers -/

variable {d : Nat}

theorem TypeRef.yields_read : Yields TypeRef.read fun t => ofTag t.tag = t :=
  (yields_true _).map fun tag _ => ofTag_tag_ofTag tag

theorem Member.yields_read : Yields (Member.format.read (d + 1)) (Member.Readable d) := by
  have hkeeps : ∀ (s t : Member), s.Readable d → t.type = s.type → t.constant = s.constant →
      t.default = s.default → t.Readable d := by
    intro s t hs htype hconstant hdefault
    exact ⟨htype ▸ hs.type, hconstant ▸ hs.constant, hdefault ▸ hs.default⟩
  refine Json.Format.yields_read ⟨by decide, (fun _ h => nomatch h), (fun _ h => nomatch h)⟩ ?_
  simp only [format, List.forall_mem_cons]
  refine ⟨fun s hs => ?name, fun s hs => ?type, fun s hs => ?array, fun s hs => ?required,
    fun s hs => ?constant, fun s hs => ?default, fun s hs => ?rules, fun s hs => ?location,
    List.forall_mem_nil _⟩
  case type => exact TypeRef.yields_read.map fun t ht => ⟨ht, hs.constant, hs.default⟩
  case constant =>
    exact (Json.yields_nullable_constant d).map fun o ho => ⟨hs.type, ho, hs.default⟩
  case default =>
    exact (Json.yields_nullable_constant d).map fun o ho => ⟨hs.type, hs.constant, ho⟩
  all_goals exact (yields_true _).map fun _ _ => hkeeps s _ hs rfl rfl rfl

theorem MapExtension.yields_read :
    Yields (MapExtension.format.read (d + 2)) (MapExtension.Readable d) := by
  have hblank : Member.format.blank.Readable d :=
    ⟨by decide, (fun _ h => nomatch h), (fun _ h => nomatch h)⟩
  refine Json.Format.yields_read ⟨hblank, hblank⟩ ?_
  simp only [format, List.forall_mem_cons]
  refine ⟨fun s hs => ?key, fun s hs => ?value, fun s hs => ?keys, List.forall_mem_nil _⟩
  case key => exact Member.yields_read.map fun k hk => ⟨hk, hs.value⟩
  case value => exact Member.yields_read.map fun v hv => ⟨hs.key, hv⟩
  case keys => exact (yields_true _).map fun _ _ => ⟨hs.key, hs.value⟩

theorem TypeDecl.yields_read : Yields (TypeDecl.format.read (d + 3)) (TypeDecl.Readable d) := by
  refine Json.Format.yields_read ⟨List.forall_mem_nil _, (fun _ h => nomatch h)⟩ ?_
  simp only [format, List.forall_mem_cons]
  refine ⟨fun s hs => ?name, fun s hs => ?fields, fun s hs => ?map, fun s hs => ?rules,
    List.forall_mem_nil _⟩
  case fields => exact (yields_list Member.yields_read).map fun ms hms => ⟨hms, hs.map⟩
  case map =>
    exact (yields_nullable MapExtension.yields_read).map fun x hx => ⟨hs.fields, hx⟩
  all_goals exact (yields_true _).map fun _ _ => ⟨hs.fields, hs.map⟩

theorem Method.yields_read : Yields (Method.format.read (d + 3)) (Method.Readable d) := by
  refine Json.Format.yields_read ⟨List.forall_mem_nil _, .nil⟩ ?_
  simp only [format, List.forall_mem_cons]
  refine ⟨fun s hs => ?name, fun s hs => ?params, fun s hs => ?http, List.forall_mem_nil _⟩
  case name => exact (yields_true _).map fun _ _ => ⟨hs.params, hs.http⟩
  case params => exact (yields_list Member.yields_read).map fun ms hms => ⟨hms, hs.http⟩
  case http => exact (Json.yields_keyed _).map fun t ht => ⟨hs.params, ht⟩

theorem Interface.yields_read : Yields (Interface.format.read (d + 5)) (Interface.Readable d) := by
  refine Json.Format.yields_read (List.forall_mem_nil _) ?_
  simp only [format, List.forall_mem_cons]
  refine ⟨fun s hs => ?name, fun s hs => ?methods, List.forall_mem_nil _⟩
  case name => exact (yields_true _).map fun _ _ => hs
  case methods => exact (yields_list Method.yields_read).map fun ms hms => hms

theorem UnionDecl.yields_read : Yields (UnionDecl.format.read (d + 3)) (UnionDecl.Readable d) := by
  refine Json.Format.yields_read (List.forall_mem_nil _) ?_
  simp only [format, List.forall_mem_cons]
  refine ⟨fun s hs => ?name, fun s hs => ?variants, fun s hs => ?discriminator,
    List.forall_mem_nil _⟩
  case variants => exact (yields_list Member.yields_read).map fun ms hms => hms
  all_goals exact (yields_true _).map fun _ _ => hs

theorem ServiceModel.yields_read :
    Yields (ServiceModel.format.read (d + 7)) (ServiceModel.Readable d) := by
  refine Json.Format.yields_read
    ⟨List.forall_mem_nil _, List.forall_mem_nil _, List.forall_mem_nil _⟩ ?_
  simp only [format, List.forall_mem_cons]
  refine ⟨fun s hs => ?types, fun s hs => ?interfaces, fun s hs => ?unions, fun s hs => ?enums,
    List.forall_mem_nil _⟩
  case types =>
    exact (yields_list TypeDecl.yields_read).map fun ts hts => ⟨hts, hs.interfaces, hs.unions⟩
  case interfaces =>
    exact (yields_list Interface.yields_read).map fun is his => ⟨hs.types, his, hs.unions⟩
  case unions =>
    exact (yields_list UnionDecl.yields_read).map fun us hus => ⟨hs.types, hs.interfaces, hus⟩
  case enums => exact (yields_true _).map fun _ _ => ⟨hs.types, hs.interfaces, hs.unions⟩

end ServiceSchema
