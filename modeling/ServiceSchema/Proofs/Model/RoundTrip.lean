import ServiceSchema.Proofs.Model.Readable
import ServiceSchema.Proofs.Model.Rules
/-!
# Descriptions are read back

What was read once can be written and read again without a change.  Each record is read back from
its own text, from members up to the whole description.  What reading has established makes up for
what the written form leaves out, turns around or cannot tell apart.
-/

namespace ServiceSchema

open Json (Reads Fills FloatsReadBack orNull entry? entryUnlessEmpty)

variable {d : Nat}

theorem TypeRef.reads {t : TypeRef} (ht : ofTag t.tag = t) :
    Reads TypeRef.read t.toJson.compact t := by
  have hread := (Json.reads_string t.tag).map ofTag
  rwa [ht] at hread

theorem ParamLocation.reads (l : ParamLocation) :
    Reads (ParamLocation.read d) l.toJson.compact l := by
  have hfind : (all.map fun l => Json.Case.plain l.tag l).find? (·.name == l.tag) =
      some (.plain l.tag l) := by
    cases l <;> rfl
  exact Json.Case.reads_plain hfind

theorem Member.reads {m : Member} (hm : m.Readable (d + 3)) (hf : m.toJson.FloatsReadBack) :
    Reads (Member.format.read (d + 4)) m.toJson.compact m := by
  have hconstant : ∀ j ∈ m.constant, Reads (Json.Reader.nullable (Json.Reader.constant (d + 3)))
      j.compact (some j) := by
    intro j hj
    obtain ⟨hcanonical, hnull⟩ := hm.constant j hj
    have hmem : ("const", j) ∈ entry? "const" id m.constant := Json.mem_optionalEntry hj
    exact hcanonical.reads_nullable_constant hnull
      (hf.entry (e := ("const", j)) (by simp [hmem]))
  have hdefault : ∀ j ∈ m.default, Reads (Json.Reader.nullable (Json.Reader.constant (d + 3)))
      j.compact (some j) := by
    intro j hj
    obtain ⟨hcanonical, hnull⟩ := hm.default j hj
    have hmem : ("default", j) ∈ entry? "default" id m.default := Json.mem_optionalEntry hj
    exact hcanonical.reads_nullable_constant hnull
      (hf.entry (e := ("default", j)) (by simp [hmem]))
  have hrules : Reads (Json.Reader.list Rule.read (d + 3))
      (Json.array (m.rules.map Rule.toJson)).compact m.rules := by
    refine Json.reads_list_map fun r hr => r.reads ?_
    have hmem : ("rules", Json.array (m.rules.map Rule.toJson)) ∈
        entryUnlessEmpty "rules" Rule.toJson m.rules := Json.mem_entryUnlessEmpty hr
    have hall : (Json.array (m.rules.map Rule.toJson)).FloatsReadBack :=
      hf.entry (e := ("rules", _)) (by simp [hmem])
    exact hall.item (List.mem_map_of_mem hr)
  have hlocation : ∀ l ∈ m.location, Reads (Json.Reader.nullable (ParamLocation.read (d + 3)))
      l.toJson.compact (some l) :=
    fun l _ => Json.reads_nullable l.reads Json.Kind.noConfusion
  refine Json.Format.reads_of_fills (by decide) ?_
  simp only [List.append_assoc, List.cons_append, List.nil_append]
  exact .written ((Json.reads_string m.name).map _) <|
    .written ((TypeRef.reads hm.type).map _) <|
    .written ((Json.reads_bool m.isArray).map _) <|
    .written ((Json.reads_bool m.isRequired).map _) <|
    .optionalEntry hconstant rfl <|
    .optionalEntry hdefault rfl <|
    .entryUnlessEmpty hrules rfl <|
    .of_append_nil <| .optionalEntry hlocation rfl (.nil _)

theorem Member.reads_list {ms : List Member} (hms : ∀ m ∈ ms, m.Readable (d + 3))
    (hf : (Json.array (ms.map Member.toJson)).FloatsReadBack) :
    Reads (Json.Reader.list Member.format.read (d + 5)) (Json.array (ms.map Member.toJson)).compact
      ms :=
  Json.reads_list_map fun m hm => Member.reads (hms m hm) (hf.item (List.mem_map_of_mem hm))

theorem MapExtension.reads {x : MapExtension} (hx : x.Readable (d + 3))
    (hf : x.toJson.FloatsReadBack) :
    Reads (MapExtension.format.read (d + 5)) x.toJson.compact x := by
  have hkeys : Reads (Json.Reader.list (fun _ => Json.Reader.string) (d + 4))
      (Json.array (x.requiredKeys.map Json.string)).compact x.requiredKeys :=
    Json.reads_list_map fun k _ => Json.reads_string k
  have hkey : x.key.toJson.FloatsReadBack :=
    hf.entry (e := ("key", x.key.toJson)) (by simp)
  have hvalue : x.value.toJson.FloatsReadBack :=
    hf.entry (e := ("value", x.value.toJson)) (by simp)
  refine Json.Format.reads_of_fills (by decide) ?_
  simp only [List.cons_append, List.nil_append]
  exact .written ((Member.reads hx.key hkey).map _) <|
    .written ((Member.reads hx.value hvalue).map _) <|
    .of_append_nil <| .entryUnlessEmpty hkeys rfl (.nil _)

theorem TypeDecl.reads {t : TypeDecl} (ht : t.Readable (d + 3)) (hf : t.toJson.FloatsReadBack) :
    Reads (TypeDecl.format.read (d + 6)) t.toJson.compact t := by
  have hfields : (Json.array (t.fields.map Member.toJson)).FloatsReadBack :=
    hf.entry (e := ("fields", _)) (by simp)
  have hrules : (Json.array (t.rules.map Rule.toJson)).FloatsReadBack :=
    hf.entry (e := ("rules", _)) (by simp)
  have hmap : (orNull MapExtension.toJson t.map).FloatsReadBack :=
    hf.entry (e := ("map", orNull MapExtension.toJson t.map)) (by simp)
  have hmapReads : Reads (Json.Reader.nullable (MapExtension.format.read (d + 5)))
      (orNull MapExtension.toJson t.map).compact t.map := by
    refine Json.reads_nullable_orNull (fun x hx => ?_) fun _ _ => Json.Kind.noConfusion
    rw [Option.mem_def.mp hx] at hmap
    exact MapExtension.reads (ht.map x hx) hmap
  have hrulesReads : Reads (Json.Reader.list Rule.read (d + 5))
      (Json.array (t.rules.map Rule.toJson)).compact t.rules :=
    Json.reads_list_map fun r hr => r.reads (hrules.item (List.mem_map_of_mem hr))
  exact Json.Format.reads_of_fills (by decide) <|
    .written ((Json.reads_string t.name).map _) <|
    .written ((Member.reads_list ht.fields hfields).map _) <|
    .written (hmapReads.map _) <|
    .written (hrulesReads.map _) (.nil _)

theorem Method.reads {m : Method} (hm : m.Readable (d + 3)) (hf : m.toJson.FloatsReadBack) :
    Reads (Method.format.read (d + 6)) m.toJson.compact m := by
  have hparams : (Json.array (m.params.map Member.toJson)).FloatsReadBack :=
    hf.entry (e := ("params", _)) (by simp)
  exact Json.Format.reads_of_fills (by decide) <|
    .written ((Json.reads_string m.name).map _) <|
    .written ((Member.reads_list hm.params hparams).map _) <|
    .written ((Json.reads_keyed (fun l _ => l.2.reads) hm.http).map _) (.nil _)

theorem Interface.reads {i : Interface} (hi : i.Readable (d + 3)) (hf : i.toJson.FloatsReadBack) :
    Reads (Interface.format.read (d + 8)) i.toJson.compact i := by
  have hmethods : (Json.array (i.methods.map Method.toJson)).FloatsReadBack :=
    hf.entry (e := ("methods", _)) (by simp)
  have hread := Json.reads_list_map fun m hm =>
    Method.reads (hi m hm) (hmethods.item (List.mem_map_of_mem hm))
  exact Json.Format.reads_of_fills (by decide) <|
    .written ((Json.reads_string i.name).map _) <| .written (hread.map _) (.nil _)

theorem UnionDecl.reads {u : UnionDecl} (hu : u.Readable (d + 3)) (hf : u.toJson.FloatsReadBack) :
    Reads (UnionDecl.format.read (d + 6)) u.toJson.compact u := by
  have hvariants : (Json.array (u.variants.map Member.toJson)).FloatsReadBack :=
    hf.entry (e := ("variants", _)) (by simp)
  have hdiscriminator : Reads (Json.Reader.nullable Json.Reader.string)
      (orNull Json.string u.discriminator).compact u.discriminator :=
    Json.reads_nullable_orNull (fun s _ => Json.reads_string s) fun _ _ => Json.Kind.noConfusion
  exact Json.Format.reads_of_fills (by decide) <|
    .written ((Json.reads_string u.name).map _) <|
    .written ((Member.reads_list hu hvariants).map _) <|
    .written (hdiscriminator.map _) (.nil _)

theorem EnumDecl.reads (e : EnumDecl) :
    Reads (EnumDecl.format.read (d + 2)) e.toJson.compact e := by
  have hvalues : Reads (Json.Reader.list (fun _ => Json.Reader.string) (d + 1))
      (Json.strings e.values).compact e.values :=
    Json.reads_list_map fun s _ => Json.reads_string s
  exact Json.Format.reads_of_fills (by decide) <|
    .written ((Json.reads_string e.name).map _) <| .written (hvalues.map _) (.nil _)

namespace ServiceModel

variable {m : ServiceModel} {t : String}

theorem reads (hm : m.Readable (d + 3)) (hf : m.toJson.FloatsReadBack) :
    Reads (ServiceModel.format.read (d + 10)) m.toJson.compact m := by
  have htypes : (Json.array (m.types.map TypeDecl.toJson)).FloatsReadBack :=
    hf.entry (e := ("types", _)) (by simp)
  have hinterfaces : (Json.array (m.interfaces.map Interface.toJson)).FloatsReadBack :=
    hf.entry (e := ("interfaces", _)) (by simp)
  have hunions : (Json.array (m.unions.map UnionDecl.toJson)).FloatsReadBack :=
    hf.entry (e := ("unions", _)) (by simp)
  have htypesRead := Json.reads_list_map fun t ht =>
    TypeDecl.reads (d := d + 2) (hm.types t ht) (htypes.item (List.mem_map_of_mem ht))
  have hinterfacesRead := Json.reads_list_map fun i hi =>
    Interface.reads (hm.interfaces i hi) (hinterfaces.item (List.mem_map_of_mem hi))
  have hunionsRead := Json.reads_list_map fun u hu =>
    UnionDecl.reads (d := d + 2) (hm.unions u hu) (hunions.item (List.mem_map_of_mem hu))
  have henumsRead := Json.reads_list_map fun e (_ : e ∈ m.enums) => e.reads (d := d + 6)
  exact Json.Format.reads_of_fills (by decide) <|
    .written (htypesRead.map _) <| .written (hinterfacesRead.map _) <|
    .written (hunionsRead.map _) <| .written (henumsRead.map _) (.nil _)

theorem readable_of_ofText (h : ofText t = .ok m) : m.Readable 120 := by
  unfold ofText Json.readAll at h
  split at h
  · cases h
  · next a rest hread =>
      split at h
      · cases h
        exact yields_read _ _ _ hread
      · cases h

theorem ofText_text_of_readable (hm : m.Readable 120) (hf : m.toJson.FloatsReadBack) :
    ofText m.text = .ok m := by
  have hread := reads hm hf [] Json.ended_nil
  rw [List.append_nil] at hread
  have hlimit : format.read Json.openLimit m.toJson.compact = .ok (m, []) := hread
  unfold ofText Json.readAll
  rw [text, String.toList_ofList, hlimit]
  rfl

/-- A description that was read and is written again is read unchanged, if the floating-point
numbers in it are.  No type in it is named like a primitive, and no constant or default is null. -/
theorem ofText_text (h : ofText t = .ok m) :
    ((∀ x ∈ m.toJson.floats, (Json.Number.float x).ReadsBack) → ofText m.text = .ok m) ∧
    ∀ x ∈ m.members, (∀ p : Primitive, x.type ≠ .named p.tag) ∧ x.constant ≠ some .null ∧
      x.default ≠ some .null := by
  have hm := readable_of_ofText h
  refine ⟨ofText_text_of_readable hm, fun x hx => ?_⟩
  obtain ⟨d, hreadable⟩ := hm.exists_readable hx
  refine ⟨fun p hp => TypeRef.ne_tag_of_ofTag hreadable.type hp p rfl, fun hnull => ?_,
    fun hnull => ?_⟩
  · exact (hreadable.constant _ hnull).2 rfl
  · exact (hreadable.default _ hnull).2 rfl

/-- Fields by name and by position, an unknown field, a null constant, a table and a constant with
keys out of order: all are put straight the first time and kept from then on. -/
theorem ofText_text_of_mixed_forms :
    let t := "\x7b\"version\": 2, \"types\": [[\"Item\", [" ++
      "\x7b\"type\": \"number\", \"const\": null, \"default\": 0.5, \"name\": \"size\"," ++
      " \"rules\": [\x7b\"max\": 1, \"kind\": \"items\"\x7d]\x7d," ++
      "[\"state\", \"State\", true, false, \x7b\"b\": [1e1], \"a\": null\x7d]]]]," ++
      "\"interfaces\": [[\"items\", [\x7b\"name\": \"get\"," ++
      " \"http\": \x7b\"id\": \"path\", \"a\": \"query\", \"id\": \"body\"\x7d\x7d]]]\x7d"
    ∃ m, ofText t = .ok m ∧ m.toJson.floats.length = 2 ∧ m.members.length = 2 ∧ m.text ≠ t ∧
      ofText m.text = .ok m ∧ ∀ x ∈ m.members, (∀ p : Primitive, x.type ≠ .named p.tag) ∧
        x.constant ≠ some .null ∧ x.default ≠ some .null := by
  intro t
  have haccepted : (ofText t).toOption.any (fun m => decide (m.toJson.FloatsReadBack ∧
      m.toJson.floats.length = 2 ∧ m.members.length = 2 ∧ m.text ≠ t)) = true := by
    decide +kernel
  cases hread : ofText t with
  | error f =>
      rw [hread] at haccepted
      cases haccepted
  | ok m =>
      rw [hread] at haccepted
      obtain ⟨hfloats, hlength, hmembers, hne⟩ := of_decide_eq_true haccepted
      obtain ⟨hback, hmeant⟩ := ofText_text hread
      exact ⟨m, rfl, hlength, hmembers, hne, hback hfloats, hmeant⟩

end ServiceModel

end ServiceSchema
