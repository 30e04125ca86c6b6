import ServiceSchema.Proofs.Schema.Counts
import ServiceSchema.Proofs.Text.Tokens
/-!
# Rules of different kinds

A schema reads the rules of each kind on their own, so it does not matter how rules of different
kinds are mixed, and rules that concern nothing at their place can be left out.  Only the key of a
map heeds all its rules: any of them calls for a check of the keys.  `Entity.Revised` takes a
relation between lists of rules to entities that are the same but for their rules.
-/

namespace ServiceSchema

namespace Rule

/-- What a list of rules is about. -/
inductive Target where
  | member (isArray : Bool)
  | mapKey
  | record
deriving DecidableEq, Repr

/-- Rules of a kind concern a target.  Keys are rules of records and of the keys of their maps, and
items are those of an array. -/
def Target.heeds : Target → Kind → Bool
  | mapKey, _ => true
  | record, k => k == .keys
  | member _, .keys => false
  | member isArray, .items => isArray
  | member _, _ => true

/-- Two lists have the same rules of each kind in the same order. -/
def Interleaved (xs ys : List Rule) : Prop := ∀ k, ofKind k xs = ofKind k ys

/-- Two lists have the same rules of each kind that concerns the target, in the same order. -/
def Agree (t : Target) (xs ys : List Rule) : Prop :=
  ∀ k, t.heeds k = true → ofKind k xs = ofKind k ys

/-- Some rules are left out that do not concern the target. -/
structure Pruned (t : Target) (xs ys : List Rule) : Prop where
  sublist : ys.Sublist xs
  agree : Agree t xs ys

variable {t : Target} {xs ys : List Rule}

theorem Interleaved.agree (h : Interleaved xs ys) : Agree t xs ys := fun k _ => h k

theorem pruned_filter (t : Target) (xs : List Rule) : Pruned t xs (xs.filter (t.heeds ·.kind)) where
  sublist := List.filter_sublist
  agree k hk := by
    rw [ofKind, ofKind, List.filter_filter]
    apply List.filter_congr
    intro r _
    cases hkind : r.kind == k with
    | true => rw [beq_iff_eq.mp hkind, hk, Bool.and_true]
    | false => rw [Bool.false_and]

theorem Interleaved.perm (h : Interleaved xs ys) : xs.Perm ys := by
  rw [List.perm_iff_count]
  intro r
  have hcount : ∀ rules, (ofKind r.kind rules).count r = rules.count r := fun rules =>
    List.count_filter (beq_self_eq_true r.kind)
  rw [← hcount xs, h r.kind, hcount]

theorem Agree.isEmpty_eq (h : Agree .mapKey xs ys) : xs.isEmpty = ys.isEmpty := by
  have hmixed : Interleaved xs ys := fun k => h k rfl
  exact hmixed.perm.isEmpty_eq

theorem Agree.member (h : Agree .mapKey xs ys) (isArray : Bool) : Agree (.member isArray) xs ys :=
  fun k _ => h k rfl

theorem Agree.keyBounds_eq (h : Agree .record xs ys) : keyBounds xs = keyBounds ys := by
  have hkeys : xs.filterMap keys? = ys.filterMap keys? :=
    filterMap_eq_of_ofKind (fun r => by cases r <;> simp [kind, keys?]) (h .keys rfl)
  rw [keyBounds, hkeys, keyBounds]

end Rule

/-! ## Entities that differ in their rules -/

def Member.Revised (R : List Rule → List Rule → Prop) (m m' : Member) : Prop :=
  ∃ rules, m' = { m with rules := rules } ∧ R m.rules rules

section

variable (R : Rule.Target → List Rule → List Rule → Prop)

def Member.AllRevised (ms ms' : List Member) : Prop :=
  List.Forall₂ (fun m m' => m.Revised (R (.member m.isArray)) m') ms ms'

structure MapExtension.Revised (x x' : MapExtension) : Prop where
  key : x.key.Revised (R .mapKey) x'.key
  value : x.value.Revised (R (.member x.value.isArray)) x'.value
  requiredKeys_eq : x.requiredKeys = x'.requiredKeys

structure Record.Revised (r r' : Record) : Prop where
  members : Member.AllRevised R r.members r'.members
  map : Option.Rel (MapExtension.Revised R) r.map r'.map
  rules : R .record r.rules r'.rules

structure ParameterBag.Revised (b b' : ParameterBag) : Prop where
  interface_eq : b.interface = b'.interface
  method_eq : b.method = b'.method
  members : Member.AllRevised R b.members b'.members

structure Union.Revised (u u' : Union) : Prop where
  variants : Member.AllRevised R u.variants u'.variants
  discriminator_eq : u.discriminator = u'.discriminator

inductive EntityKind.Revised : EntityKind → EntityKind → Prop where
  | record {r r' : Record} (h : r.Revised R r') : Revised (.record r) (.record r')
  | parameterBag {b b' : ParameterBag} (h : b.Revised R b') :
      Revised (.parameterBag b) (.parameterBag b')
  | union {u u' : Union} (h : u.Revised R u') : Revised (.union u) (.union u')
  | enum (values : List String) : Revised (.enum values) (.enum values)

/-- The same entity, where each list of rules is related to the one at its place. -/
structure Entity.Revised (e e' : Entity) : Prop where
  name_eq : e.name = e'.name
  kind : e.kind.Revised R e'.kind

end

/-! ## Their schemas

Throughout, related lists have the same rules of each kind that concerns their target.
-/

section

variable {R : Rule.Target → List Rule → List Rule → Prop} {sc : Scope} {role : Role}
  (hR : ∀ t xs ys, R t xs ys → Rule.Agree t xs ys)

namespace Member

variable {m m' : Member} {ms ms' : List Member}

theorem schema_eq_of_agree {rules : List Rule}
    (h : Rule.Agree (.member m.isArray) m.rules rules) :
    ({ m with rules := rules } : Member).schema sc role = m.schema sc role := by
  apply schema_eq_of_ofKind
  intro k hkeys hitems
  refine (h k ?_).symm
  cases k with
  | keys => exact absurd rfl hkeys
  | items => exact hitems rfl
  | _ => rfl

include hR

theorem Revised.schema_eq (h : m.Revised (R (.member m.isArray)) m') :
    m.schema sc role = m'.schema sc role := by
  obtain ⟨rules, rfl, hrules⟩ := h
  exact (schema_eq_of_agree (hR _ _ _ hrules)).symm

theorem Revised.key_schema_eq (h : m.Revised (R .mapKey) m') :
    m.schema sc role = m'.schema sc role := by
  obtain ⟨rules, rfl, hrules⟩ := h
  exact (schema_eq_of_agree ((hR _ _ _ hrules).member _)).symm

theorem AllRevised.map_schema_eq (h : AllRevised R ms ms') :
    ms.map (·.schema sc role) = ms'.map (·.schema sc role) :=
  Text.map_eq_of_forall₂ (fun _ _ _ hm => hm.schema_eq hR) h

theorem AllRevised.map_field_eq (h : AllRevised R ms ms') :
    (ms.map fun m => (⟨m.name, m.schema sc role⟩ : Schema.Field)) =
      ms'.map fun m => ⟨m.name, m.schema sc role⟩ := by
  refine Text.map_eq_of_forall₂ (fun m _ m' hm => ?_) h
  rw [hm.schema_eq hR]
  obtain ⟨rules, rfl, -⟩ := hm
  rfl

omit hR in
theorem AllRevised.map_name_eq (h : AllRevised R ms ms') : ms.map name = ms'.map name :=
  Text.map_eq_of_forall₂ (fun _ _ _ ⟨_, heq, _⟩ => heq ▸ rfl) h

omit hR in
theorem AllRevised.map_type_eq (h : AllRevised R ms ms') : ms.map type = ms'.map type :=
  Text.map_eq_of_forall₂ (fun _ _ _ ⟨_, heq, _⟩ => heq ▸ rfl) h

end Member

namespace Record

variable {r r' : Record}

theorem Revised.map_cases (h : r.Revised R r') :
    (r.map = none ∧ r'.map = none) ∨
      ∃ x x', r.map = some x ∧ r'.map = some x' ∧ x.Revised R x' := by
  have hmap := h.map
  generalize r.map = o, r'.map = o' at hmap ⊢
  cases hmap with
  | none => exact Or.inl ⟨rfl, rfl⟩
  | some hx => exact Or.inr ⟨_, _, rfl, rfl, hx⟩

theorem Revised.declaredNames_eq (h : r.Revised R r') : r.declaredNames = r'.declaredNames :=
  h.members.map_name_eq

theorem Revised.addedKeys_eq (h : r.Revised R r') : r.addedKeys = r'.addedKeys := by
  rcases h.map_cases with ⟨hr, hr'⟩ | ⟨x, x', hr, hr', hx⟩
  · simp only [addedKeys, hr, hr']
  · simp only [addedKeys, hr, hr', h.declaredNames_eq, hx.requiredKeys_eq]

theorem Revised.knownKeys_eq (h : r.Revised R r') : r.knownKeys = r'.knownKeys := by
  rw [knownKeys, h.declaredNames_eq, h.addedKeys_eq, knownKeys]

include hR

theorem Revised.keyBounds_eq (h : r.Revised R r') : r.keyBounds = r'.keyBounds :=
  (hR _ _ _ h.rules).keyBounds_eq

theorem Revised.fields_eq (h : r.Revised R r') : r.fields sc = r'.fields sc := by
  have hdeclared : r.declaredFields sc = r'.declaredFields sc := h.members.map_field_eq hR
  have hadded : r.addedFields sc = r'.addedFields sc := by
    rcases h.map_cases with ⟨hr, hr'⟩ | ⟨x, x', hr, hr', hx⟩
    · simp only [addedFields, hr, hr']
    · simp only [addedFields, hr, hr', h.addedKeys_eq, hx.value.schema_eq hR]
  rw [fields, hdeclared, hadded, fields]

theorem Revised.base_eq (h : r.Revised R r') : r.base sc = r'.base sc := by
  have hvalue : r.valueSchema sc = r'.valueSchema sc := by
    rcases h.map_cases with ⟨hr, hr'⟩ | ⟨x, x', hr, hr', hx⟩
    · simp only [valueSchema, hr, hr']
    · simp only [valueSchema, hr, hr', hx.value.schema_eq hR]
  rw [base, h.knownKeys_eq, hvalue, h.fields_eq hR, base]

theorem Revised.catchallOps_eq (h : r.Revised R r') : r.catchallOps sc = r'.catchallOps sc := by
  have hroom : r.hasRoom = r'.hasRoom := by
    rw [hasRoom, h.keyBounds_eq hR, h.knownKeys_eq, hasRoom]
  rcases h.map_cases with ⟨hr, hr'⟩ | ⟨x, x', hr, hr', hx⟩
  · simp only [catchallOps, hr, hr']
  · simp only [catchallOps, hr, hr', h.knownKeys_eq, hroom, hx.value.schema_eq hR]

/-- A key has rules in both records or in none, so the checks of keys are made in both or in
none. -/
theorem Revised.keyCheckOps_eq (h : r.Revised R r') : r.keyCheckOps sc = r'.keyCheckOps sc := by
  rcases h.map_cases with ⟨hr, hr'⟩ | ⟨x, x', hr, hr', hx⟩
  · simp only [keyCheckOps, hr, hr']
  · have hkey : x.key.schema sc .mapKey = x'.key.schema sc .mapKey := hx.key.key_schema_eq hR
    obtain ⟨rules, hsame, hrules⟩ := hx.key
    have hempty : x.key.rules.isEmpty = x'.key.rules.isEmpty := by
      rw [hsame]
      exact (hR _ _ _ hrules).isEmpty_eq
    have htype : x.key.type = x'.key.type := by rw [hsame]
    simp only [keyCheckOps, hr, hr', hkey, hempty, htype, h.knownKeys_eq]

theorem Revised.schema_eq (h : r.Revised R r') : r.schema sc = r'.schema sc := by
  rw [schema, h.base_eq hR, h.catchallOps_eq hR, h.keyBounds_eq hR, h.keyCheckOps_eq hR, schema]

end Record

namespace Union

variable {u u' : Union}

theorem Revised.all_isPrimitive_eq (h : u.Revised R u') :
    u.variants.all (·.type.isPrimitive) = u'.variants.all (·.type.isPrimitive) := by
  have htypes := congrArg (List.all · TypeRef.isPrimitive) h.variants.map_type_eq
  simpa only [List.all_map, Function.comp_def] using htypes

include hR

theorem Revised.schema_eq (h : u.Revised R u') : u.schema sc = u'.schema sc := by
  have hall := h.all_isPrimitive_eq
  have hmap : u.variants.map (·.schema sc .variant) = u'.variants.map (·.schema sc .variant) :=
    h.variants.map_schema_eq hR
  obtain ⟨variants, discriminator⟩ := u
  obtain ⟨variants', discriminator'⟩ := u'
  obtain rfl : discriminator = discriminator' := h.discriminator_eq
  cases h.variants with
  | nil => rfl
  | @cons a b _ _ hfirst hrest =>
      cases hrest with
      | nil =>
          -- A single variant takes the place of the union unless its type is primitive.
          obtain ⟨hschema, -⟩ := List.cons_eq_cons.mp hmap
          have htype : a.type.isPrimitive = b.type.isPrimitive := by simpa using hall
          cases hprimitive : b.type.isPrimitive with
          | true => simp only [schema, shape, htype, hprimitive, if_true]
          | false => simpa only [schema, shape, htype, hprimitive, Bool.false_eq_true, if_false]
      | cons => simp only [schema, shape, hall, hmap]

end Union

end

namespace Entity

theorem Revised.schema_eq {R : Rule.Target → List Rule → List Rule → Prop} {e e' : Entity}
    (hR : ∀ t xs ys, R t xs ys → Rule.Agree t xs ys) (h : e.Revised R e') (c : List String) :
    e.schema c = e'.schema c := by
  obtain ⟨name, kind⟩ := e
  obtain ⟨name', kind'⟩ := e'
  obtain rfl : name = name' := h.name_eq
  cases h.kind with
  | record hr => exact hr.schema_eq hR
  | parameterBag hb =>
      exact congrArg (fun fields => Schema.ofBase (.object fields)) (hb.members.map_field_eq hR)
  | union hu => exact hu.schema_eq hR
  | enum values => rfl

/-- Mixing rules of different kinds in another way leaves the schema of an entity as it is, and so
does leaving out rules that do not concern the member or record to which they belong. -/
theorem schema_eq_of_interleaved (c : List String) :
    (∀ e e' : Entity, e.Revised (fun _ => Rule.Interleaved) e' → e.schema c = e'.schema c) ∧
      ∀ e e' : Entity, e.Revised Rule.Pruned e' → e.schema c = e'.schema c :=
  ⟨fun _ _ h => h.schema_eq (fun _ _ _ hrules => hrules.agree) c,
    fun _ _ h => h.schema_eq (fun _ _ _ hrules => hrules.agree) c⟩

/-- A field, a key and a value with rules of several kinds, some of which concern nothing there. -/
theorem schema_eq_of_interleaved_of_mixed_rules :
    let least : Rule := .length ⟨some 1, none⟩
    let greatest : Rule := .length ⟨none, some 8⟩
    let items : Rule := .items ⟨some 2, none⟩
    let keys : Rule := .keys ⟨none, some 4⟩
    let letter : Rule := .pattern "^[A-Z]"
    let digit : Rule := .pattern "[0-9]$"
    let codes (field key value record : List Rule) : Entity := .map "Codes"
      ⟨[{ Member.optional "code" (.primitive .string) with rules := field }],
        some ⟨{ Member.required "" (.primitive .string) with rules := key },
          { Member.required "" (.primitive .string) with isArray := true, rules := value }, ["a"]⟩,
        record⟩
    let e := codes [letter, least, items, greatest, digit] [items, letter] [keys, items, least]
      [letter, keys]
    let mixed := codes [least, items, letter, digit, greatest] [letter, items] [items, least, keys]
      [keys, letter]
    let pruned := codes [letter, least, greatest, digit] [items, letter] [items, least] [keys]
    e.schema ["Codes"] = mixed.schema ["Codes"] ∧ e.schema ["Codes"] = pruned.schema ["Codes"] := by
  intro least greatest items keys letter digit codes e mixed pruned
  obtain ⟨hinterleaved, hpruned⟩ := schema_eq_of_interleaved ["Codes"]
  have hmixed : e.Revised (fun _ => Rule.Interleaved) mixed := by
    refine ⟨rfl, .record ⟨.cons ⟨_, rfl, ?_⟩ .nil, .some ⟨⟨_, rfl, ?_⟩, ⟨_, rfl, ?_⟩, rfl⟩, ?_⟩⟩
    all_goals
      intro k
      cases k <;> rfl
  have hless : e.Revised Rule.Pruned pruned :=
    ⟨rfl, .record ⟨.cons ⟨_, rfl, Rule.pruned_filter _ _⟩ .nil,
      .some ⟨⟨_, rfl, Rule.pruned_filter _ _⟩, ⟨_, rfl, Rule.pruned_filter _ _⟩, rfl⟩,
      Rule.pruned_filter _ _⟩⟩
  exact ⟨hinterleaved e mixed hmixed, hpruned e pruned hless⟩

end Entity

end ServiceSchema
