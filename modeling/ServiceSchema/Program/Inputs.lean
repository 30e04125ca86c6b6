import ServiceSchema.Model.Format
import ServiceSchema.Program.Files
import ServiceSchema.Settings
/-!
# What the program reads

Settings are loaded from the files of two layers, and a service description from the text of a file.
-/

namespace ServiceSchema

/-!
## Layers of settings

The program reads its settings from two files: one for the user and one for the project, whose
settings lie over the user's. A file that is not there, or cannot be, sets nothing.
-/

inductive SettingsError where
  | unreadable (path : String) (fault : FileFault)
  | invalid (path : String)
deriving DecidableEq, Repr

namespace SettingsError

/-- The text of a fault of the settings. What is wrong in an invalid file is left out; it would
follow the path, after a colon. -/
def message : SettingsError → String
  | unreadable path fault => "failed to read " ++ path ++ ": " ++ fault.message
  | invalid path => "invalid config " ++ path

end SettingsError

namespace Settings

variable {m : Type → Type} [Monad m]

def userPath (configHome : String) : String :=
  Path.join (Path.join configHome "normalize") "schemagen.toml"

def projectPath (root : String) : String :=
  Path.join root SettingsSchema.projectPath

def ofFile (path : String) : Except FileFault String → Except SettingsError Settings
  | .error .notFound => .ok unset
  | .error .notDirectory => .ok unset
  | .error .nameTooLong => .ok unset
  | .error fault => .error (.unreadable path fault)
  | .ok text =>
    match ofText? text with
    | some s => .ok s
    | none => .error (.invalid path)

def loadFile (files : FileAccess m) (path : String) : m (Except SettingsError Settings) := do
  return ofFile path (← files.read path)

def loadUser (files : FileAccess m) : (configHome : Option String) →
    m (Except SettingsError Settings)
  | some home => loadFile files (userPath home)
  | none => return .ok unset

/-- The settings of the user, and over them those of the project. -/
def load (files : FileAccess m) (configHome : Option String) (root : String) :
    m (Except SettingsError Settings) := do
  match ← loadUser files configHome with
  | .error e => return .error e
  | .ok user =>
    match ← loadFile files (projectPath root) with
    | .error e => return .error e
    | .ok project => return .ok (user.overlay project)

end Settings

/-! ## Descriptions -/

inductive LoadError where
  | unreadable (path : String) (fault : FileFault)
  | invalid (fault : Json.Fault)

namespace LoadError

def cause : LoadError → String
  | unreadable _ fault => fault.message
  | invalid fault => fault.message

def message : LoadError → String
  | unreadable path fault => "failed to read " ++ path ++ ": " ++ fault.message
  | invalid fault => "invalid service model: " ++ fault.message

end LoadError

namespace ServiceModel

variable {m : Type → Type} [Monad m]

def parse (text : String) : Except LoadError ServiceModel :=
  (ofText text).mapError .invalid

def ofFile (path : String) : Except FileFault String → Except LoadError ServiceModel
  | .error fault => .error (.unreadable path fault)
  | .ok text => parse text

def load (files : FileAccess m) (path : String) : m (Except LoadError ServiceModel) := do
  return ofFile path (← files.read path)

end ServiceModel

end ServiceSchema
