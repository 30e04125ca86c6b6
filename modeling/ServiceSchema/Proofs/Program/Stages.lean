import ServiceSchema.Program.Run
import ServiceSchema.Proofs.Emit.Histories
import ServiceSchema.Proofs.Program.Files
import ServiceSchema.Proofs.Synthesis.Conservation
/-!
# Stages of a generation

What a command that generates schemas asks of its files, of the standard input and of the
description, stage by stage: when a stage fails, and with which report, is said of the files and of
the description alone.  A stage that does not fail provides what the later ones work with.
-/

namespace ServiceSchema

/-! ## Files of settings -/

namespace FileTree

variable {t : FileTree} {path : String}

/-- The settings that a file gives.  Without the file nothing is set. -/
inductive Gives (t : FileTree) (path : String) : Settings → Prop
  | absent (h : ¬t.Has path) : Gives t path .unset
  | present {text : String} {s : Settings} (hread : t.read path = .ok text)
      (hs : Settings.ofText? text = some s) : Gives t path s

/-- A file of settings that is there and gives none. -/
inductive Spoils (t : FileTree) (path : String) : SettingsError → Prop
  | unreadable {fault : FileFault} (h : t.Has path) (hread : t.read path = .error fault) :
      Spoils t path (.unreadable path fault)
  | invalid {text : String} (hread : t.read path = .ok text)
      (hs : Settings.ofText? text = none) : Spoils t path (.invalid path)

theorem ofFile_of_meansAbsent {fault : FileFault} (h : fault.MeansAbsent) :
    Settings.ofFile path (.error fault) = .ok .unset := by
  rcases h with rfl | rfl | rfl <;> rfl

theorem ofFile_of_not_meansAbsent {fault : FileFault} (h : ¬fault.MeansAbsent) :
    Settings.ofFile path (.error fault) = .error (.unreadable path fault) := by
  cases fault with
  | notFound => exact absurd (.inl rfl) h
  | notDirectory => exact absurd (.inr (.inl rfl)) h
  | nameTooLong => exact absurd (.inr (.inr rfl)) h
  | isDirectory | notText | other reason => rfl

theorem Gives.ofFile {s : Settings} (h : t.Gives path s) :
    Settings.ofFile path (t.read path) = .ok s := by
  cases h with
  | absent h =>
      obtain ⟨fault, hread, habsent⟩ := read_of_not_has h
      rw [hread, ofFile_of_meansAbsent habsent]
  | present hread hs =>
      rw [hread]
      unfold Settings.ofFile
      dsimp only
      rw [hs]

theorem Spoils.ofFile {e : SettingsError} (h : t.Spoils path e) :
    Settings.ofFile path (t.read path) = .error e := by
  cases h with
  | unreadable h hread =>
      have hthere := not_meansAbsent_of_has h hread
      rw [hread, ofFile_of_not_meansAbsent hthere]
  | invalid hread hs =>
      rw [hread]
      unfold Settings.ofFile
      dsimp only
      rw [hs]

theorem Spoils.not_gives {e : SettingsError} {s : Settings} (h : t.Spoils path e) :
    ¬t.Gives path s := by
  intro hgives
  have hboth := h.ofFile.symm.trans hgives.ofFile
  cases hboth

/-- A file of settings gives some, unless it is spoilt. -/
theorem gives_or_spoils (t : FileTree) (path : String) :
    (∃ s, t.Gives path s) ∨ ∃ e, t.Spoils path e := by
  by_cases h : t.Has path
  · cases hread : t.read path with
    | error fault => exact .inr ⟨_, .unreadable h hread⟩
    | ok text =>
        cases hs : Settings.ofText? text with
        | none => exact .inr ⟨_, .invalid hread hs⟩
        | some s => exact .inl ⟨s, .present hread hs⟩
  · exact .inl ⟨_, .absent h⟩

end FileTree

namespace Program

/-! ## Command lines and their stages -/

/-- A run of a command line that generates schemas, with everything that it starts from. -/
structure Invocation where
  tree : FileTree
  /-- What reading the standard input gives. -/
  input : Except FileFault String
  configHome : Option String
  args : List String
  root : String
  request : GenerateRequest
  accepted : Request.ofArguments args = .run root (.generate request)

/-- The stages of a run in their order. -/
inductive Stage where
  | userSettings
  | projectSettings
  | reading
  | parsing
  | naming
  | cycles
  | backend
  | writing
deriving DecidableEq, Repr

def Stage.rank : Stage → Nat
  | userSettings => 0
  | projectSettings => 1
  | reading => 2
  | parsing => 3
  | naming => 4
  | cycles => 5
  | backend => 6
  | writing => 7

namespace Invocation

def ending (v : Invocation) : Outcome × FileTree :=
  (Program.run (FileTree.accessFrom v.input) v.configHome v.args).run v.tree

def outcome (v : Invocation) : Outcome :=
  v.ending.1

def after (v : Invocation) : FileTree :=
  v.ending.2

/-- The settings of the user.  Without a place for them nothing is set. -/
def UserSettings (v : Invocation) (s : Settings) : Prop :=
  match v.configHome with
  | some home => v.tree.Gives (Settings.userPath home) s
  | none => s = .unset

def ProjectSettings (v : Invocation) (s : Settings) : Prop :=
  v.tree.Gives (Settings.projectPath v.root) s

def source (v : Invocation) : Except FileFault String :=
  if v.request.source = "-" then v.input else v.tree.read v.request.source

def Describes (v : Invocation) (m : ServiceModel) : Prop :=
  ∃ text, v.source = .ok text ∧ ServiceModel.ofText text = .ok m

/-- The name of the backend: from the command line, else from the project, else from the user. -/
def chosenBackend (v : Invocation) (user project : Settings) : String :=
  (v.request.backend <|> project.backend <|> user.backend).getD "zod"

/-- The options of the output, each decided on its own. -/
def chosenOptions (v : Invocation) (user project : Settings) : EmitOptions where
  isExported :=
    if v.request.noExport then false else (project.isExported <|> user.isExported).getD true
  infersTypes :=
    if v.request.inferTypes then true else (project.infersTypes <|> user.infersTypes).getD false
  suffix := (v.request.suffix <|> project.suffix <|> user.suffix).getD "Schema"
  importPath := (project.importPath <|> user.importPath).getD "zod"

/-- When a stage fails, and what is reported then. -/
inductive Fails (v : Invocation) : Stage → String → Prop
  | userSettings {home : String} {e : SettingsError} (hhome : v.configHome = some home)
      (h : v.tree.Spoils (Settings.userPath home) e) : Fails v .userSettings e.message
  | projectSettings {e : SettingsError} (h : v.tree.Spoils (Settings.projectPath v.root) e) :
      Fails v .projectSettings e.message
  | input {fault : FileFault} (hsource : v.request.source = "-") (h : v.input = .error fault) :
      Fails v .reading (Failure.inputUnreadable fault).message
  | file {fault : FileFault} (hsource : v.request.source ≠ "-")
      (h : v.tree.read v.request.source = .error fault) :
      Fails v .reading (Failure.model (.unreadable v.request.source fault)).message
  | parsing {text : String} {fault : Json.Fault} (hsource : v.source = .ok text)
      (h : ServiceModel.ofText text = .error fault) :
      Fails v .parsing (Failure.model (.invalid fault)).message
  /-- The first name that repeats an earlier one is reported. -/
  | naming {m : ServiceModel} {before after : List String} {n : String} (hm : v.Describes m)
      (hnames : m.entityNames .pascal = before ++ n :: after) (hbefore : before.Nodup)
      (h : n ∈ before) : Fails v .naming (Failure.generation (.duplicateName n)).message
  | cycles {m : ServiceModel} {s : Synthesis} (hm : v.Describes m)
      (hs : m.generate .pascal = .ok s) (hdeny : v.request.denyCircular = true)
      (h : s.circular ≠ []) :
      Fails v .cycles (Failure.circular (s.circular.map Definition.name)).message
  | backend {user project : Settings} (huser : v.UserSettings user)
      (hproject : v.ProjectSettings project)
      (h : ∀ b ∈ Backend.builtIn, b.name ≠ v.chosenBackend user project) :
      Fails v .backend (Failure.unknownBackend (v.chosenBackend user project)
        (Backend.builtIn.map Backend.name)).message
  | writing {path : String} {fault : FileFault} (houtput : v.request.output = some path)
      (h : ∀ content, v.tree.write path content = .error fault) :
      Fails v .writing (Failure.unwritable path fault).message

def Passes (v : Invocation) (stage : Stage) : Prop :=
  ∀ report, ¬v.Fails stage report

def FailsFirst (v : Invocation) (stage : Stage) (report : String) : Prop :=
  v.Fails stage report ∧ ∀ earlier : Stage, earlier.rank < stage.rank → v.Passes earlier

variable {v : Invocation} {stage : Stage} {report : String}

theorem exists_failsFirst (h : v.Fails stage report) :
    ∃ first report, v.FailsFirst first report := by
  have hsome : {s | ∃ r, v.Fails s r}.Nonempty := ⟨stage, report, h⟩
  obtain ⟨first, ⟨r, hr⟩, hleast⟩ := (measure Stage.rank).wf.has_min _ hsome
  exact ⟨first, r, hr, fun earlier hlt r' hr' => hleast earlier ⟨r', hr'⟩ hlt⟩

/-! ## What a stage provides -/

theorem passes_userSettings_iff : v.Passes .userSettings ↔ ∃ user, v.UserSettings user := by
  unfold UserSettings
  constructor
  · intro h
    cases hhome : v.configHome with
    | none => exact ⟨.unset, rfl⟩
    | some home =>
        apply (v.tree.gives_or_spoils (Settings.userPath home)).resolve_right
        rintro ⟨e, hspoils⟩
        exact h _ (.userSettings hhome hspoils)
  · rintro ⟨user, huser⟩ report hfails
    cases hfails with
    | userSettings hhome hspoils =>
        rw [hhome] at huser
        exact hspoils.not_gives huser

theorem passes_projectSettings_iff :
    v.Passes .projectSettings ↔ ∃ project, v.ProjectSettings project := by
  constructor
  · intro h
    apply (v.tree.gives_or_spoils (Settings.projectPath v.root)).resolve_right
    rintro ⟨e, hspoils⟩
    exact h _ (.projectSettings hspoils)
  · rintro ⟨project, hproject⟩ report hfails
    cases hfails with
    | projectSettings hspoils => exact hspoils.not_gives hproject

theorem passes_reading_iff : v.Passes .reading ↔ ∃ text, v.source = .ok text := by
  unfold source
  constructor
  · intro h
    split_ifs with hsource
    · cases hinput : v.input with
      | ok text => exact ⟨text, rfl⟩
      | error fault => exact absurd (.input hsource hinput) (h _)
    · cases hfile : v.tree.read v.request.source with
      | ok text => exact ⟨text, rfl⟩
      | error fault => exact absurd (.file hsource hfile) (h _)
  · rintro ⟨text, htext⟩ report hfails
    cases hfails with
    | input hsource hinput =>
        rw [if_pos hsource, hinput] at htext
        cases htext
    | file hsource hfile =>
        rw [if_neg hsource, hfile] at htext
        cases htext

theorem passes_parsing_iff {text : String} (hsource : v.source = .ok text) :
    v.Passes .parsing ↔ ∃ m, ServiceModel.ofText text = .ok m := by
  constructor
  · intro h
    cases hm : ServiceModel.ofText text with
    | ok m => exact ⟨m, rfl⟩
    | error fault => exact absurd (.parsing hsource hm) (h _)
  · rintro ⟨m, hm⟩ report hfails
    cases hfails with
    | parsing hsource' hfault =>
        have htext := Except.ok.inj (hsource.symm.trans hsource')
        rw [← htext, hm] at hfault
        cases hfault

theorem exists_model (hreading : v.Passes .reading) (hparsing : v.Passes .parsing) :
    ∃ m, v.Describes m := by
  obtain ⟨text, hsource⟩ := passes_reading_iff.mp hreading
  obtain ⟨m, hm⟩ := (passes_parsing_iff hsource).mp hparsing
  exact ⟨m, text, hsource, hm⟩

theorem exists_synthesis {m : ServiceModel} (hm : v.Describes m) (h : v.Passes .naming) :
    ∃ s, m.generate .pascal = .ok s := by
  cases hs : m.generate .pascal with
  | ok s => exact ⟨s, rfl⟩
  | error e =>
      obtain ⟨before, n, after, hnames, hbefore, hn, -⟩ :=
        ServiceModel.generate_eq_error_iff_repeated.mp hs
      exact absurd (.naming hm hnames hbefore hn) (h _)

theorem exists_backend {user project : Settings} (huser : v.UserSettings user)
    (hproject : v.ProjectSettings project) (h : v.Passes .backend) :
    ∃ b, ((Registry.find? (v.chosenBackend user project)).run .unopened).1 = some b := by
  apply Option.ne_none_iff_exists'.mp
  intro hnone
  exact h _ (.backend huser hproject (Registry.find?_eq_none_iff.mp hnone))

theorem exists_write {path : String} (houtput : v.request.output = some path)
    (h : v.Passes .writing) (content : String) : ∃ t, v.tree.write path content = .ok t := by
  cases hwrite : v.tree.write path content with
  | ok t => exact ⟨t, rfl⟩
  | error fault =>
      exact absurd (.writing houtput (FileTree.write_eq_error hwrite)) (h _)

end Invocation

end Program

end ServiceSchema
