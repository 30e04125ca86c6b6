import ServiceSchema.Model.Format
import ServiceSchema.Proofs.Schema.Mentions
import ServiceSchema.Proofs.Synthesis.Conservation
/-!
# Where text is converted

Outside the body of a request every value arrives as text, so the numbers and truth values among the
parameters of a method are converted there.  The schema of a member converts exactly when the member
is a number or a truth value, has no constant and has a location outside the body; nothing else in a
definition converts.  Only parameters are meant to have a location, and as long as the members of
records and unions have none, conversion stays within the parameter bags.
-/

namespace ServiceSchema

open Schema

def Schema.Base.converts : Base → Bool
  | .number coerce => coerce
  | .boolean coerce => coerce
  | _ => false

def TypeRef.isConvertible : TypeRef → Bool
  | .primitive p => p.isNumeric || p == .boolean
  | .named _ => false

/-! ## Members -/

namespace Member

variable {sc : Scope} {role : Role}

/-- A number or a truth value without a constant, at a location outside the body. -/
def IsConverted (m : Member) : Prop :=
  m.constant = none ∧ m.type.isConvertible = true ∧ ∃ l, m.location = some l ∧ l ≠ .body

theorem coerces_iff {m : Member} : m.coerces = true ↔ ∃ l, m.location = some l ∧ l ≠ .body := by
  have hlocation : ∀ l : ParamLocation, l.coerces = true ↔ l ≠ .body := by
    intro l
    cases l <;> decide
  unfold coerces
  rw [Option.any_eq_true]
  simp only [hlocation]

theorem converts_numberSchema {integral : Bool} {m : Member} :
    (m.numberSchema integral).base.converts = true ↔ m.constant = none ∧ m.coerces = true := by
  unfold numberSchema
  cases hconstant : m.constant with
  | some value => simp [literal, ofBase, Base.converts]
  | none => simp [Base.converts]

theorem converts_booleanSchema {m : Member} :
    m.booleanSchema.base.converts = true ↔ m.constant = none ∧ m.coerces = true := by
  unfold booleanSchema
  cases hconstant : m.constant with
  | some value => simp [literal, ofBase, Base.converts]
  | none => simp [ofBase, Base.converts]

theorem converts_stringSchema (m : Member) : m.stringSchema.base.converts = false := by
  unfold stringSchema
  split
  · rfl
  split <;> rfl

theorem converts_primitiveSchema {m : Member} {p : Primitive} :
    (m.primitiveSchema p).base.converts = true ↔
      m.constant = none ∧ (p.isNumeric || p == .boolean) = true ∧ m.coerces = true := by
  cases p with
  | number | float | double | integer | long =>
      simp [primitiveSchema, converts_numberSchema, Primitive.isNumeric]
  | boolean => simp [primitiveSchema, converts_booleanSchema]
  | string => simp [primitiveSchema, converts_stringSchema, Primitive.isNumeric]
  | null | date | dateTime | binary | untyped =>
      simp [primitiveSchema, ofBase, Base.converts, Primitive.isNumeric]

theorem converts_reference (sc : Scope) (n : String) : (sc.reference n).base.converts = false := by
  unfold Scope.reference
  split <;> rfl

/-- The schema of a member converts exactly if the member is to be converted, in any role. -/
theorem converts_schema {m : Member} : (m.schema sc role).base.converts = true ↔ m.IsConverted := by
  change (m.elementSchema sc).base.converts = true ↔ _
  unfold IsConverted
  rw [elementSchema, ← coerces_iff]
  cases m.type with
  | primitive p => exact converts_primitiveSchema
  | named n => simp [converts_reference, TypeRef.isConvertible]

end Member

/-! ## Entities -/

theorem Schema.Base.IsOwn.converts_eq_false {b : Base} (h : b.IsOwn) : b.converts = false := by
  cases b with
  | number coerce | boolean coerce => exact h.elim
  | _ => rfl

namespace Entity

variable {c : List String} {e : Entity} {t : Schema}

/-- Whatever converts inside a definition is the schema of a member that is to be converted. -/
theorem exists_converted_of_within (h : Within t (e.schema c)) (ht : t.base.converts = true) :
    ∃ m ∈ e.members, m.IsConverted ∧ ∃ role, t = m.schema ⟨e.name, c⟩ role := by
  rcases fromMember_or_base_of_within h with ⟨m, hm, role, rfl⟩ | hown | hany
  · exact ⟨m, hm, Member.converts_schema.mp ht, role, rfl⟩
  · rw [hown.converts_eq_false] at ht
    cases ht
  · rw [hany] at ht
    cases ht

end Entity

namespace Method

theorem schema_members (k : Method) (interface : String) (sc : Scope) :
    (ParameterBag.mk interface k.name k.members).schema sc =
      .ofBase (.object (k.params.map fun p =>
        ⟨p.name, ({ p with location := k.location p } : Member).schema sc .field⟩)) := by
  rw [ParameterBag.schema, members, List.map_map]
  rfl

theorem exists_param_of_within {k : Method} {interface : String} {sc : Scope} {t : Schema}
    (h : Within t ((ParameterBag.mk interface k.name k.members).schema sc))
    (ht : t.base.converts = true) :
    ∃ p ∈ k.params, ({ p with location := k.location p } : Member).IsConverted ∧
      t = ({ p with location := k.location p } : Member).schema sc .field := by
  rw [schema_members] at h
  cases h with
  | self => cases ht
  | nested hu hwithin =>
      simp only [Schema.nested, ofBase, Base.nested, List.flatMap_nil, List.append_nil,
        List.map_map, List.mem_map] at hu
      obtain ⟨p, hp, rfl⟩ := hu
      obtain rfl := Member.eq_of_within_schema hwithin
      exact ⟨p, hp, Member.converts_schema.mp ht, rfl⟩

end Method

namespace ServiceModel

open Resolution

variable {m : ServiceModel} {naming : Naming} {s : Synthesis}

theorem bag_mem_entities {i : Interface} {k : Method} (hi : i ∈ m.interfaces) (hk : k ∈ i.methods)
    (hparams : k.params ≠ []) :
    (⟨naming.parameterBag i.name k.name, .parameterBag ⟨i.name, k.name, k.members⟩⟩ : Entity) ∈
      m.entities naming := by
  have hentity : Method.entity? naming i.name k = some
      ⟨naming.parameterBag i.name k.name, .parameterBag ⟨i.name, k.name, k.members⟩⟩ := by
    rw [Method.entity?, List.isEmpty_eq_false_iff.mpr hparams, if_neg Bool.false_ne_true]
  have hbag : (⟨naming.parameterBag i.name k.name,
      .parameterBag ⟨i.name, k.name, k.members⟩⟩ : Entity) ∈
        m.interfaces.flatMap (Interface.entities naming) :=
    List.mem_flatMap.mpr ⟨i, hi, List.mem_filterMap.mpr ⟨k, hk, hentity⟩⟩
  exact List.mem_append_left _ (List.mem_append_left _ (List.mem_append_right _ hbag))

theorem entities_cases {e : Entity} (h : e ∈ m.entities naming) :
    (∃ d ∈ m.types, e = d.entity) ∨
      (∃ i ∈ m.interfaces, ∃ k ∈ i.methods, k.params ≠ [] ∧
        e = ⟨naming.parameterBag i.name k.name, .parameterBag ⟨i.name, k.name, k.members⟩⟩) ∨
      (∃ d ∈ m.unions, e = d.entity) ∨ ∃ d ∈ m.enums, e = d.entity := by
  simp only [entities, List.mem_append, List.mem_map, List.mem_flatMap] at h
  rcases h with ((⟨d, hd, rfl⟩ | ⟨i, hi, he⟩) | ⟨d, hd, rfl⟩) | ⟨d, hd, rfl⟩
  · exact Or.inl ⟨d, hd, rfl⟩
  · obtain ⟨k, hk, hentity⟩ := List.mem_filterMap.mp he
    unfold Method.entity? at hentity
    split at hentity
    · cases hentity
    · next hparams =>
        rw [List.isEmpty_iff] at hparams
        exact Or.inr (Or.inl ⟨i, hi, k, hk, hparams, (Option.some.inj hentity).symm⟩)
  · exact Or.inr (Or.inr (Or.inl ⟨d, hd, rfl⟩))
  · exact Or.inr (Or.inr (Or.inr ⟨d, hd, rfl⟩))

/-- A definition is the bag of a method, and a schema is its field for a parameter without constant
that the method binds outside the body. -/
def BindsConverted (m : ServiceModel) (naming : Naming) (d : Definition) (t : Schema) : Prop :=
  ∃ i ∈ m.interfaces, ∃ k ∈ i.methods, d.name = naming.parameterBag i.name k.name ∧
    ∃ fields, d.schema = .ofBase (.object fields) ∧
      ∃ p ∈ k.params, ⟨p.name, t⟩ ∈ fields ∧ p.constant = none ∧ p.type.isConvertible = true ∧
        ∃ l, k.location p = some l ∧ l ≠ .body

/-- The definition of a bag has a field for each parameter, which converts by the location that the
method gives to the parameter. -/
theorem exists_fields_of_bag (h : m.generate naming = .ok s) {i : Interface}
    (hi : i ∈ m.interfaces) {k : Method} (hk : k ∈ i.methods) (hparams : k.params ≠ []) :
    ∃ fields, s.get? (naming.parameterBag i.name k.name) = some (.ofBase (.object fields)) ∧
      List.Forall₂ (fun p f => f.name = p.name ∧ f.schema.nested = [] ∧
        (f.schema.base.converts = true ↔ p.constant = none ∧ p.type.isConvertible = true ∧
          ∃ l, k.location p = some l ∧ l ≠ .body)) k.params fields := by
  obtain ⟨hes, rfl⟩ := generate_eq_ok_iff.mp h
  have hget := get?_synthesis hes (bag_mem_entities hi hk hparams)
  refine ⟨_, hget.trans (congrArg some (k.schema_members i.name _)), ?_⟩
  rw [List.forall₂_map_right_iff, List.forall₂_same]
  intro p _
  exact ⟨rfl, Member.nested_schema _ _ _, Member.converts_schema⟩

/-- What converts in a definition is the field of a bound parameter, or it is the schema of a member
of a record or of a variant of a union that has a location of its own. -/
theorem converts_cases (h : m.generate naming = .ok s) {d : Definition} (hd : d ∈ s.all)
    {t : Schema} (ht : Within t d.schema) (hconverts : t.base.converts = true) :
    m.BindsConverted naming d t ∨
      (∃ x ∈ m.types, d.name = x.name ∧ ∃ p ∈ x.entity.members, p.IsConverted ∧
        ∃ sc role, t = p.schema sc role) ∨
      ∃ u ∈ m.unions, d.name = u.name ∧ ∃ p ∈ u.variants, p.IsConverted ∧
        ∃ sc role, t = p.schema sc role := by
  obtain ⟨-, rfl⟩ := generate_eq_ok_iff.mp h
  rw [all_synthesis] at hd
  obtain ⟨e, he, rfl⟩ := List.mem_map.mp hd
  obtain ⟨q, hq, hconverted, role, heq⟩ := Entity.exists_converted_of_within ht hconverts
  rcases entities_cases ((entities_perm _).mem_iff.mp he) with
    ⟨x, hx, rfl⟩ | ⟨i, hi, k, hk, -, rfl⟩ | ⟨u, hu, rfl⟩ | ⟨x, -, rfl⟩
  · exact Or.inr (Or.inl ⟨x, hx, rfl, q, hq, hconverted, _, role, heq⟩)
  · obtain ⟨p, hp, ⟨hconstant, htype, hlocation⟩, rfl⟩ :=
      Method.exists_param_of_within ht hconverts
    refine Or.inl ⟨i, hi, k, hk, rfl, _, k.schema_members i.name _, p, hp, ?_, hconstant, htype,
      hlocation⟩
    exact List.mem_map_of_mem hp
  · exact Or.inr (Or.inr ⟨u, hu, rfl, q, hq, hconverted, _, role, heq⟩)
  · exact absurd hq List.not_mem_nil

/-- The definition of a record has a field for each declared member, which converts by the member's
own location; fields for the required keys of a map may follow. -/
theorem exists_fields_of_type (h : m.generate naming = .ok s) {x : TypeDecl} (hx : x ∈ m.types)
    (hfields : x.fields ≠ []) :
    ∃ schema declared added, s.get? x.name = some schema ∧
      schema.base = .object (declared ++ added) ∧
      List.Forall₂ (fun p f => f.name = p.name ∧ f.schema.nested = [] ∧
        (f.schema.base.converts = true ↔ p.IsConverted)) x.fields declared := by
  obtain ⟨hes, rfl⟩ := generate_eq_ok_iff.mp h
  have hmem : x.entity ∈ m.entities naming := by
    simp only [entities, List.mem_append]
    exact Or.inl (Or.inl (Or.inl (List.mem_map_of_mem hx)))
  let r : Record := ⟨x.fields, x.map, x.rules⟩
  have hknown : r.knownKeys ≠ [] := fun hnil => hfields (Record.knownKeys_eq_nil_iff.mp hnil).1
  refine ⟨_, _, _, get?_synthesis hes hmem, Record.base_of_knownKeys hknown, ?_⟩
  rw [Record.declaredFields, List.forall₂_map_right_iff, List.forall₂_same]
  intro p _
  exact ⟨rfl, Member.nested_schema _ _ _, Member.converts_schema⟩

/-- Numbers and truth values are converted where a member has a location outside the body.  The
fields of a parameter bag are converted exactly by the locations that the method gives to its
parameters, and the fields of a record by the declared members' own locations.  In the definition of
a record or a union it takes a member or a variant with a location of its own; where these have
none, only bound parameters are converted. -/
theorem generate_converts (h : m.generate naming = .ok s) :
    (∀ i ∈ m.interfaces, ∀ k ∈ i.methods, k.params ≠ [] →
      ∃ fields, s.get? (naming.parameterBag i.name k.name) = some (.ofBase (.object fields)) ∧
        List.Forall₂ (fun p f => f.name = p.name ∧ f.schema.nested = [] ∧
          (f.schema.base.converts = true ↔ p.constant = none ∧ p.type.isConvertible = true ∧
            ∃ l, k.location p = some l ∧ l ≠ .body)) k.params fields) ∧
    (∀ d ∈ s.all, ∀ t, Within t d.schema → t.base.converts = true →
      m.BindsConverted naming d t ∨
      (∃ x ∈ m.types, d.name = x.name ∧ ∃ p ∈ x.entity.members, p.IsConverted ∧
        ∃ sc role, t = p.schema sc role) ∨
      ∃ u ∈ m.unions, d.name = u.name ∧ ∃ p ∈ u.variants, p.IsConverted ∧
        ∃ sc role, t = p.schema sc role) ∧
    ((∀ x ∈ m.types, ∀ p ∈ x.entity.members, p.coerces = false) →
      (∀ u ∈ m.unions, ∀ p ∈ u.variants, p.coerces = false) →
      ∀ d ∈ s.all, ∀ t, Within t d.schema → t.base.converts = true →
        m.BindsConverted naming d t) ∧
    ∀ x ∈ m.types, x.fields ≠ [] →
      ∃ schema declared added, s.get? x.name = some schema ∧
        schema.base = .object (declared ++ added) ∧
        List.Forall₂ (fun p f => f.name = p.name ∧ f.schema.nested = [] ∧
          (f.schema.base.converts = true ↔ p.IsConverted)) x.fields declared := by
  have hnot : ∀ p : Member, p.coerces = false → ¬ p.IsConverted := by
    intro p hp hconverted
    exact Bool.eq_false_iff.mp hp (Member.coerces_iff.mpr hconverted.2.2)
  refine ⟨fun i hi k hk => exists_fields_of_bag h hi hk, fun d hd t => converts_cases h hd, ?_,
    fun x hx => exists_fields_of_type h hx⟩
  intro htypes hunions d hd t ht hconverts
  rcases converts_cases h hd ht hconverts with
    hbound | ⟨x, hx, -, p, hp, hconverted, -⟩ | ⟨u, hu, -, p, hp, hconverted, -⟩
  · exact hbound
  · exact absurd hconverted (hnot p (htypes x hx p hp))
  · exact absurd hconverted (hnot p (hunions u hu p hp))

/-- The table of the method comes before the parameters' own locations, constants and the body are
left alone, and so is the number in the record. -/
theorem generate_converts_of_bound_parameters :
    let limit : Member := (Member.required "limit" (.primitive .integer)).located .body
    let dryRun : Member := (Member.optional "dryRun" (.primitive .boolean)).located .header
    let version : Member :=
      ((Member.required "version" (.primitive .number)).located .path).withConstant (.bool true)
    let depth : Member := (Member.required "depth" (.primitive .double)).located .query
    let list : Method :=
      ⟨"list", [limit, dryRun, version, depth], [("depth", .body), ("limit", .query)]⟩
    let page : TypeDecl := ⟨"Page", [.required "size" (.primitive .number)], none, []⟩
    let m : ServiceModel := ⟨[page], [⟨"pages", [list]⟩], [], []⟩
    ∃ s, m.generate .pascal = .ok s ∧
      (∃ limit dryRun version depth : Field, s.get? "PagesListParams" =
          some (.ofBase (.object [limit, dryRun, version, depth])) ∧
        limit.schema.base.converts = true ∧ dryRun.schema.base.converts = true ∧
        version.schema.base.converts = false ∧ depth.schema.base.converts = false) ∧
      ∀ d ∈ s.all, ∀ t, Within t d.schema → t.base.converts = true →
        m.BindsConverted .pascal d t := by
  intro limit dryRun version depth list page m
  have hgenerate : m.generate .pascal = .ok (ofWorklist (m.entities .pascal)).synthesis :=
    generate_eq_ok_iff.mpr ⟨by decide +kernel, rfl⟩
  obtain ⟨hbags, -, hconfined, -⟩ := generate_converts hgenerate
  have hname : Naming.pascal.parameterBag "pages" "list" = "PagesListParams" := by decide +kernel
  refine ⟨_, hgenerate, ?_, hconfined (by decide) (by decide)⟩
  obtain ⟨fields, hget, hfields⟩ :=
    hbags _ List.mem_cons_self list List.mem_cons_self (List.cons_ne_nil _ _)
  rw [hname] at hget
  cases hfields with | cons hlimit hfields =>
  cases hfields with | cons hdryRun hfields =>
  cases hfields with | cons hversion hfields =>
  cases hfields with | cons hdepth hfields =>
  cases hfields
  refine ⟨_, _, _, _, hget, ?_, ?_, ?_, ?_⟩
  · exact hlimit.2.2.mpr ⟨rfl, rfl, .query, rfl, by decide⟩
  · exact hdryRun.2.2.mpr ⟨rfl, rfl, .header, rfl, by decide⟩
  · refine Bool.eq_false_iff.mpr fun hconverts => ?_
    cases (hversion.2.2.mp hconverts).1
  · refine Bool.eq_false_iff.mpr fun hconverts => ?_
    obtain ⟨-, -, l, hl, hne⟩ := hdepth.2.2.mp hconverts
    obtain rfl : .body = l := Option.some.inj hl
    exact hne rfl

/-- The field of a record has a location of its own.  It is converted, although the description has
no method and so no parameter. -/
theorem generate_converts_located_field :
    let t := "\x7b\"types\": [\x7b\"name\": \"Page\", \"fields\": [\x7b\"name\": \"size\"," ++
      " \"type\": \"number\", \"required\": true, \"location\": \"query\"\x7d]\x7d]\x7d"
    ∃ m s, ofText t = .ok m ∧ m.generate .pascal = .ok s ∧ m.interfaces = [] ∧
      ∃ x ∈ m.types, ∃ d ∈ s.all, d.name = x.name ∧
        ∃ u, Within u d.schema ∧ u.base.converts = true := by
  intro t
  have haccepted : (ofText t).toOption.any (fun m => decide (m.interfaces.isEmpty = true ∧
      (m.entityNames .pascal).Nodup) && m.types.any fun x => x.fields.head?.any fun p =>
        p.constant.isNone && p.type.isConvertible && p.location == some .query) = true := by
    decide +kernel
  cases hread : ofText t with
  | error f =>
      rw [hread] at haccepted
      cases haccepted
  | ok m =>
      rw [hread] at haccepted
      simp only [Except.toOption, Option.any_some, Bool.and_eq_true, decide_eq_true_eq,
        List.any_eq_true, Option.any_eq_true, List.isEmpty_iff, Option.isNone_iff_eq_none,
        beq_iff_eq, List.head?_eq_some_iff] at haccepted
      obtain ⟨⟨hinterfaces, hnodup⟩, x, hx, p, ⟨ps, hps⟩, ⟨hconstant, htype⟩, hlocation⟩ :=
        haccepted
      have hgenerate : m.generate .pascal = .ok (ofWorklist (m.entities .pascal)).synthesis :=
        generate_eq_ok_iff.mpr ⟨by rwa [map_name_entities], rfl⟩
      obtain ⟨schema, declared, added, hget, hbase, hdeclared⟩ :=
        exists_fields_of_type hgenerate hx (by rw [hps]; exact List.cons_ne_nil p ps)
      rw [hps] at hdeclared
      cases hdeclared with
      | @cons _ f _ fs hfirst hrest =>
          have hconverts := hfirst.2.2.mpr ⟨hconstant, htype, .query, hlocation, by decide⟩
          have hnested : f.schema ∈ schema.base.nested := by
            rw [hbase]
            exact List.mem_map_of_mem List.mem_cons_self
          obtain ⟨d, hd, hname, rfl⟩ := Synthesis.exists_mem_all_of_get? hget
          exact ⟨m, _, rfl, hgenerate, hinterfaces, x, hx, d, hd, hname, f.schema,
            within_of_mem_base hnested, hconverts⟩

end ServiceModel

end ServiceSchema
