import ServiceSchema.Proofs.Program.Stages
/-!
# Runs that generate schemas

A run goes through its stages and stops at the first that fails.  Everything before the last stage
only reads, and the last one writes at most one file, so a run that fails leaves all files as they
were and prints nothing but its report.  A run in which no stage fails prints or writes exactly what
the chosen backend makes of the description.
-/

namespace ServiceSchema.Program

variable {t : FileTree} {input : Except FileFault String} {user project : Settings}
  {m : ServiceModel} {s : Synthesis}

/-! ## Steps of a run -/

/-- A step of a run hands what it gives, and the files, to the rest of the run. -/
theorem run_bind_of_run {α β : Type} {t' : FileTree} {a : α} {x : StateM FileTree α}
    {f : α → StateM FileTree β} (h : x.run t = (a, t')) : (x >>= f).run t = (f a).run t' := by
  rw [StateT.run_bind, h]
  rfl

theorem run_loadFile (path : String) :
    (Settings.loadFile (FileTree.accessFrom input) path).run t =
      (Settings.ofFile path (t.read path), t) := rfl

theorem exists_warnings (resolution : Except GenerationError Resolution) :
    ∃ ds : List Diagnostic, warnings resolution = ds.map Diagnostic.warning := by
  cases resolution with
  | error e => exact ⟨[], rfl⟩
  | ok r => exact ⟨r.diagnostics, rfl⟩

theorem resolve_of_generate_eq_error {e : GenerationError} (h : m.generate .pascal = .error e) :
    m.resolve .pascal = .error e := by
  unfold ServiceModel.generate at h
  cases hresolve : m.resolve .pascal with
  | error f => rw [hresolve] at h; exact congrArg _ (Except.error.inj h)
  | ok r => rw [hresolve] at h; cases h

theorem exists_resolution (h : m.generate .pascal = .ok s) :
    ∃ r : Resolution, m.resolve .pascal = .ok r ∧ s = r.synthesis := by
  unfold ServiceModel.generate at h
  cases hresolve : m.resolve .pascal with
  | error f => rw [hresolve] at h; cases h
  | ok r => rw [hresolve] at h; exact ⟨r, rfl, (Except.ok.inj h).symm⟩

theorem findBackend_of_find? {name : String} {b : Backend}
    (h : ((Registry.find? name).run .unopened).1 = some b) : findBackend name = .ok b := by
  have hrun : (Registry.find? name).run .unopened = (some b, ⟨some Backend.builtIn⟩) :=
    Prod.ext h rfl
  unfold findBackend
  rw [hrun]

theorem findBackend_of_unknown {name : String} (h : ∀ b ∈ Backend.builtIn, b.name ≠ name) :
    findBackend name = .error (.unknownBackend name (Backend.builtIn.map Backend.name)) := by
  have hrun : (Registry.find? name).run .unopened = (none, ⟨some Backend.builtIn⟩) :=
    Prod.ext (Registry.find?_eq_none_iff.mpr h) rfl
  unfold findBackend
  rw [hrun]
  rfl

theorem isAcyclic_eq (r : Resolution) : r.isAcyclic = r.synthesis.circular.isEmpty :=
  List.isEmpty_map.symm

theorem render_of_denied {r : GenerateRequest} {settings : Settings}
    (hs : m.generate .pascal = .ok s) (hdeny : r.denyCircular = true) (h : s.circular ≠ []) :
    render r settings (m.resolve .pascal) =
      .error (.circular (s.circular.map Definition.name)) := by
  obtain ⟨resolution, hresolution, rfl⟩ := exists_resolution hs
  have hcyclic : resolution.isAcyclic = false := by
    rw [isAcyclic_eq, List.isEmpty_eq_false_iff]
    exact h
  rw [hresolution, Resolution.map_name_circular_synthesis]
  unfold render
  dsimp only [Except.mapError, bind, Except.bind]
  rw [hdeny, hcyclic]
  rfl

theorem render_of_allowed {r : GenerateRequest} {settings : Settings}
    (hs : m.generate .pascal = .ok s) (h : ¬(r.denyCircular = true ∧ s.circular ≠ [])) :
    render r settings (m.resolve .pascal) =
      (findBackend (backendName r settings)).map fun b => b.render s (emitOptions r settings) := by
  obtain ⟨resolution, hresolution, rfl⟩ := exists_resolution hs
  have hallowed : (r.denyCircular && !resolution.isAcyclic) = false := by
    rw [isAcyclic_eq, Bool.eq_false_iff]
    simpa using h
  rw [hresolution]
  unfold render
  dsimp only [Except.mapError, bind, Except.bind]
  rw [hallowed]
  cases findBackend (backendName r settings) <;> rfl

theorem run_write (path text : String) :
    ((FileTree.accessFrom input).write path text).run t =
      match t.write path text with
      | .ok t' => (.ok (), t')
      | .error fault => (.error fault, t) := by
  have hget : (get : StateM FileTree FileTree).run t = (t, t) := rfl
  change (get >>= _ : StateM FileTree _).run t = _
  rw [run_bind_of_run hget]
  cases t.write path text <;> rfl

theorem run_deliver_of_write {path text : String} {lines : List String} {t' : FileTree}
    (h : t.write path text = .ok t') :
    (deliver (FileTree.accessFrom input) (some path) lines text).run t =
      (⟨0, "", lines ++ ["Generated " ++ path]⟩, t') := by
  have hwrite : ((FileTree.accessFrom input).write path text).run t = (.ok (), t') := by
    rw [run_write, h]
  unfold deliver
  rw [run_bind_of_run hwrite]
  rfl

theorem run_deliver_of_write_error {path text : String} {lines : List String} {fault : FileFault}
    (h : t.write path text = .error fault) :
    (deliver (FileTree.accessFrom input) (some path) lines text).run t =
      (failed lines (.unwritable path fault), t) := by
  have hwrite : ((FileTree.accessFrom input).write path text).run t = (.error fault, t) := by
    rw [run_write, h]
  unfold deliver
  rw [run_bind_of_run hwrite]
  rfl

/-! ## Layers of settings -/

theorem backendName_overlay (v : Invocation) (user project : Settings) :
    backendName v.request (user.overlay project) = v.chosenBackend user project := by
  unfold backendName Settings.effectiveBackend Settings.overlay Invocation.chosenBackend
  cases v.request.backend <;> rfl

theorem emitOptions_overlay (v : Invocation) (user project : Settings) :
    emitOptions v.request (user.overlay project) = v.chosenOptions user project := by
  unfold emitOptions Settings.emitOptions Settings.overlay Invocation.chosenOptions
  rw [EmitOptions.mk.injEq]
  refine ⟨?_, ?_, ?_, rfl⟩
  · cases v.request.noExport
    · exact Bool.and_true _
    · exact Bool.and_false _
  · cases v.request.inferTypes
    · exact Bool.or_false _
    · exact Bool.or_true _
  · cases v.request.suffix <;> rfl

namespace Invocation

variable {v : Invocation} {stage : Stage} {report : String}

/-! ## From stage to stage -/

def userSettings (v : Invocation) : Except SettingsError Settings :=
  match v.configHome with
  | some home => Settings.ofFile (Settings.userPath home) (v.tree.read (Settings.userPath home))
  | none => .ok .unset

def settings (v : Invocation) : Except SettingsError Settings := do
  let user ← v.userSettings
  let project ← Settings.ofFile (Settings.projectPath v.root)
    (v.tree.read (Settings.projectPath v.root))
  return user.overlay project

theorem run_loadUser (v : Invocation) :
    (Settings.loadUser (FileTree.accessFrom v.input) v.configHome).run v.tree =
      (v.userSettings, v.tree) := by
  unfold userSettings
  cases v.configHome <;> rfl

theorem run_load (v : Invocation) :
    (Settings.load (FileTree.accessFrom v.input) v.configHome v.root).run v.tree =
      (v.settings, v.tree) := by
  unfold Settings.load settings
  rw [run_bind_of_run v.run_loadUser]
  cases v.userSettings with
  | error e => rfl
  | ok user =>
      dsimp only
      rw [run_bind_of_run (run_loadFile _)]
      cases Settings.ofFile (Settings.projectPath v.root)
        (v.tree.read (Settings.projectPath v.root)) <;> rfl

theorem userSettings_eq_ok (huser : v.UserSettings user) : v.userSettings = .ok user := by
  unfold UserSettings at huser
  unfold userSettings
  cases hhome : v.configHome with
  | none =>
      rw [hhome] at huser
      exact congrArg Except.ok huser.symm
  | some home =>
      rw [hhome] at huser
      exact FileTree.Gives.ofFile huser

theorem settings_eq_ok (huser : v.UserSettings user) (hproject : v.ProjectSettings project) :
    v.settings = .ok (user.overlay project) := by
  unfold settings
  rw [userSettings_eq_ok huser, FileTree.Gives.ofFile hproject]
  rfl

theorem settings_of_spoilt_user {home : String} {e : SettingsError}
    (hhome : v.configHome = some home) (h : v.tree.Spoils (Settings.userPath home) e) :
    v.settings = .error e := by
  unfold settings userSettings
  rw [hhome]
  dsimp only
  rw [h.ofFile]
  rfl

theorem settings_of_spoilt_project {e : SettingsError} (huser : v.UserSettings user)
    (h : v.tree.Spoils (Settings.projectPath v.root) e) : v.settings = .error e := by
  unfold settings
  rw [userSettings_eq_ok huser, h.ofFile]
  rfl

def model (v : Invocation) : Except Failure ServiceModel :=
  if v.request.source = "-" then modelOfInput v.input
  else (ServiceModel.ofFile v.request.source (v.tree.read v.request.source)).mapError .model

theorem run_loadSource (v : Invocation) :
    (loadSource (FileTree.accessFrom v.input) v.request.source).run v.tree =
      (v.model, v.tree) := by
  unfold loadSource model
  split <;> rfl

theorem model_of_text {text : String} (h : v.source = .ok text) :
    v.model = (ServiceModel.parse text).mapError .model := by
  unfold source at h
  unfold model
  split_ifs at h ⊢
  · rw [h]
    rfl
  · rw [h]
    rfl

theorem model_eq_ok (h : v.Describes m) : v.model = .ok m := by
  obtain ⟨text, hsource, hm⟩ := h
  rw [model_of_text hsource, ServiceModel.parse, hm]
  rfl

theorem ending_eq (v : Invocation) :
    v.ending =
      match v.settings with
      | .error e => (⟨1, "", [errorLine e.message]⟩, v.tree)
      | .ok s => (generate (FileTree.accessFrom v.input) s v.request).run v.tree := by
  unfold ending run
  rw [v.accepted]
  dsimp only
  rw [run_bind_of_run v.run_load]
  cases v.settings <;> rfl

theorem ending_of_model_error {f : Failure} (huser : v.UserSettings user)
    (hproject : v.ProjectSettings project) (h : v.model = .error f) :
    v.ending = (failed [] f, v.tree) := by
  rw [ending_eq, settings_eq_ok huser hproject]
  unfold generate
  dsimp only
  rw [run_bind_of_run v.run_loadSource, h]
  rfl

theorem ending_of_model (huser : v.UserSettings user) (hproject : v.ProjectSettings project)
    (hm : v.Describes m) :
    v.ending =
      match render v.request (user.overlay project) (m.resolve .pascal) with
      | .error f => (failed (warnings (m.resolve .pascal)) f, v.tree)
      | .ok text => (deliver (FileTree.accessFrom v.input) v.request.output
          (warnings (m.resolve .pascal)) text).run v.tree := by
  rw [ending_eq, settings_eq_ok huser hproject]
  unfold generate
  dsimp only
  rw [run_bind_of_run v.run_loadSource, model_eq_ok hm]
  dsimp only
  cases render v.request (user.overlay project) (m.resolve .pascal) <;> rfl

theorem ending_of_render_error {f : Failure} (huser : v.UserSettings user)
    (hproject : v.ProjectSettings project) (hm : v.Describes m)
    (h : render v.request (user.overlay project) (m.resolve .pascal) = .error f) :
    ∃ ds : List Diagnostic, v.ending =
      (⟨1, "", ds.map Diagnostic.warning ++ [errorLine f.message]⟩, v.tree) := by
  obtain ⟨ds, hds⟩ := exists_warnings (m.resolve .pascal)
  refine ⟨ds, ?_⟩
  rw [ending_of_model huser hproject hm, h, hds]
  rfl

theorem render_eq_ok {b : Backend} (hs : m.generate .pascal = .ok s)
    (hallowed : ¬(v.request.denyCircular = true ∧ s.circular ≠ []))
    (hb : ((Registry.find? (v.chosenBackend user project)).run .unopened).1 = some b) :
    render v.request (user.overlay project) (m.resolve .pascal) =
      .ok (b.render s (v.chosenOptions user project)) := by
  rw [render_of_allowed hs hallowed, backendName_overlay, emitOptions_overlay,
    findBackend_of_find? hb]
  rfl

theorem allowed_of_passes (hm : v.Describes m) (hs : m.generate .pascal = .ok s)
    (h : v.Passes .cycles) : ¬(v.request.denyCircular = true ∧ s.circular ≠ []) := by
  rintro ⟨hdeny, hcircular⟩
  exact h _ (.cycles hm hs hdeny hcircular)

theorem exists_layers (hfirst : ∀ earlier : Stage, earlier.rank < stage.rank → v.Passes earlier)
    (hstage : 1 < stage.rank) :
    ∃ user project, v.UserSettings user ∧ v.ProjectSettings project := by
  have hpositive : 0 < stage.rank := Nat.zero_lt_of_lt hstage
  obtain ⟨user, huser⟩ := passes_userSettings_iff.mp (hfirst .userSettings hpositive)
  obtain ⟨project, hproject⟩ := passes_projectSettings_iff.mp (hfirst .projectSettings hstage)
  exact ⟨user, project, huser, hproject⟩

/-- The first stage that fails ends the run: its report comes last, nothing else is printed except
warnings, and no file changes. -/
theorem ending_of_failsFirst (h : v.FailsFirst stage report) :
    ∃ ds : List Diagnostic, v.ending =
      (⟨1, "", ds.map Diagnostic.warning ++ [errorLine report]⟩, v.tree) := by
  obtain ⟨hfails, hfirst⟩ := h
  -- The stages before the one that fails provide what the run has reached by then.
  cases hfails with
  | userSettings hhome hspoils =>
      refine ⟨[], ?_⟩
      rw [ending_eq, settings_of_spoilt_user hhome hspoils]
      rfl
  | projectSettings hspoils =>
      obtain ⟨user, huser⟩ := passes_userSettings_iff.mp (hfirst .userSettings (by decide))
      refine ⟨[], ?_⟩
      rw [ending_eq, settings_of_spoilt_project huser hspoils]
      rfl
  | input hsource hinput =>
      obtain ⟨user, project, huser, hproject⟩ := exists_layers hfirst (by decide)
      refine ⟨[], ending_of_model_error huser hproject ?_⟩
      rw [model, if_pos hsource, hinput]
      rfl
  | file hsource hfile =>
      obtain ⟨user, project, huser, hproject⟩ := exists_layers hfirst (by decide)
      refine ⟨[], ending_of_model_error huser hproject ?_⟩
      rw [model, if_neg hsource, hfile]
      rfl
  | parsing hsource htext =>
      obtain ⟨user, project, huser, hproject⟩ := exists_layers hfirst (by decide)
      refine ⟨[], ending_of_model_error huser hproject ?_⟩
      rw [model_of_text hsource, ServiceModel.parse, htext]
      rfl
  | naming hm hnames hbefore hn =>
      obtain ⟨user, project, huser, hproject⟩ := exists_layers hfirst (by decide)
      have hs := ServiceModel.generate_eq_error_iff_repeated.mpr
        ⟨_, _, _, hnames, hbefore, hn, rfl⟩
      apply ending_of_render_error huser hproject hm
      rw [resolve_of_generate_eq_error hs]
      rfl
  | cycles hm hs hdeny hcircular =>
      obtain ⟨user, project, huser, hproject⟩ := exists_layers hfirst (by decide)
      exact ending_of_render_error huser hproject hm (render_of_denied hs hdeny hcircular)
  | backend huser hproject hunknown =>
      obtain ⟨m, hm⟩ := exists_model (hfirst .reading (by decide)) (hfirst .parsing (by decide))
      obtain ⟨s, hs⟩ := exists_synthesis hm (hfirst .naming (by decide))
      have hallowed := allowed_of_passes hm hs (hfirst .cycles (by decide))
      apply ending_of_render_error huser hproject hm
      rw [render_of_allowed hs hallowed, backendName_overlay, findBackend_of_unknown hunknown]
      rfl
  | @writing path fault houtput hwrite =>
      obtain ⟨user, project, huser, hproject⟩ := exists_layers hfirst (by decide)
      obtain ⟨m, hm⟩ := exists_model (hfirst .reading (by decide)) (hfirst .parsing (by decide))
      obtain ⟨s, hs⟩ := exists_synthesis hm (hfirst .naming (by decide))
      have hallowed := allowed_of_passes hm hs (hfirst .cycles (by decide))
      obtain ⟨b, hb⟩ := exists_backend huser hproject (hfirst .backend (by decide))
      obtain ⟨ds, hds⟩ := exists_warnings (m.resolve .pascal)
      refine ⟨ds, ?_⟩
      rw [ending_of_model huser hproject hm, render_eq_ok hs hallowed hb, houtput]
      dsimp only
      rw [run_deliver_of_write_error (hwrite _), hds]
      rfl

/-- A run in which no stage fails hands the text of the chosen backend to the output. -/
theorem ending_of_passes (h : ∀ stage, v.Passes stage) :
    ∃ m s user project b, v.Describes m ∧ m.generate .pascal = .ok s ∧
      v.UserSettings user ∧ v.ProjectSettings project ∧
      ((Registry.find? (v.chosenBackend user project)).run .unopened).1 = some b ∧
      ∃ lines, v.ending = (deliver (FileTree.accessFrom v.input) v.request.output lines
        (b.render s (v.chosenOptions user project))).run v.tree := by
  obtain ⟨user, huser⟩ := passes_userSettings_iff.mp (h .userSettings)
  obtain ⟨project, hproject⟩ := passes_projectSettings_iff.mp (h .projectSettings)
  obtain ⟨m, hm⟩ := exists_model (h .reading) (h .parsing)
  obtain ⟨s, hs⟩ := exists_synthesis hm (h .naming)
  obtain ⟨b, hb⟩ := exists_backend huser hproject (h .backend)
  have hallowed := allowed_of_passes hm hs (h .cycles)
  refine ⟨m, s, user, project, b, hm, hs, huser, hproject, hb, warnings (m.resolve .pascal), ?_⟩
  rw [ending_of_model huser hproject hm, render_eq_ok hs hallowed hb]

theorem code_of_passes (h : ∀ stage, v.Passes stage) : v.outcome.code = 0 := by
  obtain ⟨m, s, user, project, b, -, -, -, -, -, lines, hending⟩ := ending_of_passes h
  unfold outcome
  rw [hending]
  cases houtput : v.request.output with
  | none => rfl
  | some path =>
      obtain ⟨t, hwrite⟩ := exists_write houtput (h .writing)
        (b.render s (v.chosenOptions user project))
      rw [run_deliver_of_write hwrite]

theorem code_eq_one_iff : v.outcome.code = 1 ↔ ∃ stage report, v.Fails stage report := by
  constructor
  · intro hcode
    by_contra hnone
    have hpasses : ∀ stage, v.Passes stage := fun stage report hfails =>
      hnone ⟨stage, report, hfails⟩
    rw [code_of_passes hpasses] at hcode
    exact absurd hcode (by decide)
  · rintro ⟨stage, report, hfails⟩
    obtain ⟨first, report, hfirst⟩ := exists_failsFirst hfails
    obtain ⟨ds, hending⟩ := ending_of_failsFirst hfirst
    rw [outcome, hending]

theorem passes_of_code_eq_zero (h : v.outcome.code = 0) (stage : Stage) : v.Passes stage := by
  intro report hfails
  have hcode : v.outcome.code = 1 := code_eq_one_iff.mpr ⟨stage, report, hfails⟩
  rw [h] at hcode
  exact absurd hcode (by decide)

/-- A run fails exactly when one of its stages does.  It reports the first of them after the
warnings of the description, prints nothing else and leaves every file as it was.  The report is
that of the messages, which leave out where a description is at fault and why a file of settings is
invalid. -/
theorem failed_run (v : Invocation) :
    (v.outcome.code = 1 ↔ ∃ stage report, v.Fails stage report) ∧
    (∀ stage report, v.FailsFirst stage report →
      ∃ ds : List Diagnostic,
        v.outcome.lines = ds.map Diagnostic.warning ++ [errorLine report]) ∧
    (v.outcome.code = 1 → v.outcome.output = "" ∧ v.after = v.tree) := by
  refine ⟨code_eq_one_iff, ?_, ?_⟩
  · intro stage report hfirst
    obtain ⟨ds, hending⟩ := ending_of_failsFirst hfirst
    exact ⟨ds, by rw [outcome, hending]⟩
  · intro hcode
    obtain ⟨stage, report, hfails⟩ := code_eq_one_iff.mp hcode
    obtain ⟨first, report, hfirst⟩ := exists_failsFirst hfails
    obtain ⟨ds, hending⟩ := ending_of_failsFirst hfirst
    rw [outcome, after, hending]
    exact ⟨rfl, rfl⟩

/-- The settings of the project, the description, the backend and the output file are all at fault:
the settings are reported.  Without settings the repeated name is. -/
theorem failed_run_of_several_faults :
    let twice := "\x7b\"enums\":[\x7b\"name\":\"A\"\x7d,\x7b\"name\":\"A\"\x7d]\x7d"
    let v : (settings : String) → Invocation := fun settings => {
      tree := ⟨["w"], [(["w", ".normalize", "schemagen.toml"], .text settings),
        (["w", "m.json"], .text twice), (["w", "out"], .directory)]⟩
      input := .ok ""
      configHome := none
      args := ["generate", "m.json", "-b", "none", "-o", "out"]
      root := "."
      request := ⟨"m.json", some "none", some "out", false, false, none, false⟩
      accepted := by decide +kernel }
    (∃ ds : List Diagnostic, (v "[output]\nbackend = 1").outcome.lines =
      ds.map Diagnostic.warning ++ ["error: invalid config ./.normalize/schemagen.toml"]) ∧
    (∃ ds : List Diagnostic, (v "").outcome.lines =
      ds.map Diagnostic.warning ++ ["error: duplicate entity name: A"]) ∧
    (v "").outcome.output = "" ∧ (v "").after = (v "").tree := by
  intro twice v
  have huser : ∀ settings, (v settings).Passes .userSettings := fun settings =>
    passes_userSettings_iff.mpr ⟨.unset, rfl⟩
  have hinvalid : (v "[output]\nbackend = 1").FailsFirst .projectSettings
      (SettingsError.invalid (Settings.projectPath ".")).message := by
    have hread : (v "[output]\nbackend = 1").tree.read (Settings.projectPath ".") =
        .ok "[output]\nbackend = 1" := by decide +kernel
    have hunset : Settings.ofText? "[output]\nbackend = 1" = none := by decide +kernel
    refine ⟨.projectSettings (.invalid hread hunset), ?_⟩
    intro earlier hearlier
    cases earlier with
    | userSettings => exact huser _
    | _ => exact absurd hearlier (by decide)
  have hrepeated : (v "").FailsFirst .naming
      (Failure.generation (.duplicateName "A")).message := by
    have hread : (v "").tree.read (Settings.projectPath ".") = .ok "" := by decide +kernel
    have hproject : (v "").ProjectSettings .unset := .present hread (by decide +kernel)
    have hsource : (v "").source = .ok twice := by decide +kernel
    obtain ⟨m, hm, hnames⟩ : ∃ m, ServiceModel.ofText twice = .ok m ∧
        m.entityNames .pascal = ["A"] ++ "A" :: [] := by
      have hread : (ServiceModel.ofText twice).toOption.map (·.entityNames .pascal) =
          some ["A", "A"] := by decide +kernel
      cases hm : ServiceModel.ofText twice with
      | error f =>
          rw [hm] at hread
          cases hread
      | ok m =>
          rw [hm] at hread
          exact ⟨m, rfl, Option.some.inj hread⟩
    have hdescribes : (v "").Describes m := ⟨twice, hsource, hm⟩
    refine ⟨.naming hdescribes hnames (by decide) (by decide), ?_⟩
    intro earlier hearlier
    cases earlier with
    | userSettings => exact huser _
    | projectSettings => exact passes_projectSettings_iff.mpr ⟨_, hproject⟩
    | reading => exact passes_reading_iff.mpr ⟨_, hsource⟩
    | parsing => exact (passes_parsing_iff hsource).mpr ⟨_, hm⟩
    | _ => exact absurd hearlier (by decide)
  have hsettingsLine : errorLine (SettingsError.invalid (Settings.projectPath ".")).message =
      "error: invalid config ./.normalize/schemagen.toml" := by decide +kernel
  have hnameLine : errorLine (Failure.generation (.duplicateName "A")).message =
      "error: duplicate entity name: A" := by decide +kernel
  rw [← hsettingsLine, ← hnameLine]
  refine ⟨(failed_run _).2.1 _ _ hinvalid, (failed_run _).2.1 _ _ hrepeated, ?_⟩
  exact (failed_run _).2.2 ((failed_run _).1.mpr ⟨_, _, hrepeated.1⟩)

/-- A run that succeeds prints what the chosen backend makes of the description under the chosen
options, or writes it to the output file and changes nothing else. -/
theorem successful_run (v : Invocation) (h : v.outcome.code = 0) :
    ∃ m s user project b, v.Describes m ∧ m.generate .pascal = .ok s ∧
      v.UserSettings user ∧ v.ProjectSettings project ∧
      ((Registry.find? (v.chosenBackend user project)).run .unopened).1 = some b ∧
      (v.request.output = none →
        v.outcome.output = b.render s (v.chosenOptions user project) ∧ v.after = v.tree) ∧
      ∀ path, v.request.output = some path →
        v.outcome.output = "" ∧
        v.after.read path = .ok (b.render s (v.chosenOptions user project)) ∧
        v.after.workingDirectory = v.tree.workingDirectory ∧
        ∃ place, v.tree.place path = .ok place ∧
          ∀ q, q ≠ place → v.after.node? q = v.tree.node? q := by
  have hpasses := passes_of_code_eq_zero h
  obtain ⟨m, s, user, project, b, hm, hs, huser, hproject, hb, lines, hending⟩ :=
    ending_of_passes hpasses
  refine ⟨m, s, user, project, b, hm, hs, huser, hproject, hb, ?_, ?_⟩
  · intro houtput
    rw [houtput] at hending
    rw [outcome, after, hending]
    exact ⟨rfl, rfl⟩
  · intro path houtput
    obtain ⟨t, hwrite⟩ := exists_write houtput (hpasses .writing)
      (b.render s (v.chosenOptions user project))
    rw [houtput, run_deliver_of_write hwrite] at hending
    rw [outcome, after, hending]
    exact ⟨rfl, FileTree.write_spec hwrite⟩

/-- The user chooses another backend and a suffix, the project the backend and inferred types, and
the command line no exports: all of it but the user's backend shows in the file. -/
theorem successful_run_of_layered_settings :
    let v : Invocation := {
      tree := ⟨["w"], [
        (["x", "normalize", "schemagen.toml"],
          .text "[output]\nbackend = \"json\"\nschema_suffix = \"S\""),
        (["w", ".normalize", "schemagen.toml"],
          .text "[output]\nbackend = \"zod\"\ninfer_types = true")]⟩
      input := .ok "\x7b\"enums\":[\x7b\"name\":\"A\",\"values\":[\"a\"]\x7d]\x7d"
      configHome := some "/x"
      args := ["generate", "-", "--no-export", "-o", "out"]
      root := "."
      request := ⟨"-", none, some "out", true, false, none, false⟩
      accepted := by decide +kernel }
    v.outcome.code = 0 ∧ v.outcome.output = "" ∧
      v.after.read "out" = .ok ("// Generated by normalize-schemagen. Do not edit.\n\n" ++
        "import \x7b z \x7d from \"zod\";\n\nconst AS = z.enum([\"a\"]);\n" ++
        "type A = z.infer<typeof AS>;\n") ∧
      ∀ q, q ≠ ["w", "out"] → v.after.node? q = v.tree.node? q := by
  intro v
  have hcode : v.outcome.code = 0 := by decide +kernel
  have hout : v.tree.place "out" = .ok ["w", "out"] := by decide +kernel
  obtain ⟨m, s, user, project, b, hm, hs, huser, hproject, hb, -, hwritten⟩ :=
    successful_run v hcode
  obtain ⟨hsilent, htext, -, place, hplace, hkept⟩ := hwritten "out" rfl
  -- Which settings, schemas and backend the text is made with.
  obtain rfl : user = ⟨some "json", none, none, some "S", none⟩ := by
    have hread : v.userSettings = .ok ⟨some "json", none, none, some "S", none⟩ := by
      decide +kernel
    exact Except.ok.inj ((userSettings_eq_ok huser).symm.trans hread)
  obtain rfl : project = ⟨some "zod", none, some true, none, none⟩ := by
    have hread : Settings.ofFile (Settings.projectPath v.root)
        (v.tree.read (Settings.projectPath v.root)) =
          .ok ⟨some "zod", none, some true, none, none⟩ := by
      decide +kernel
    exact Except.ok.inj ((FileTree.Gives.ofFile hproject).symm.trans hread)
  obtain rfl : Backend.module = b := Option.some.inj hb
  have hmodule : (v.model.toOption.bind fun m => (m.generate .pascal).toOption).map
      (fun s => String.ofList (Emit.moduleText s ⟨false, true, "S", "zod"⟩)) =
        some ("// Generated by normalize-schemagen. Do not edit.\n\n" ++
          "import \x7b z \x7d from \"zod\";\n\nconst AS = z.enum([\"a\"]);\n" ++
          "type A = z.infer<typeof AS>;\n") := by
    decide +kernel
  rw [model_eq_ok hm, Except.toOption, Option.bind_some, hs] at hmodule
  have hsame : place = ["w", "out"] := Except.ok.inj (hplace.symm.trans hout)
  refine ⟨hcode, hsilent, ?_, ?_⟩
  · exact htext.trans (congrArg Except.ok (Option.some.inj hmodule))
  · intro q hq
    exact hkept q (hsame ▸ hq)

end Invocation

end ServiceSchema.Program
