import ServiceSchema.Emit.Registry
import ServiceSchema.Program.Arguments
import ServiceSchema.Program.Inputs
/-!
# Running the program

A run ends with an exit code and with what it has printed. Generation stops at the first step that
fails, and the output file is only written by the last step.
-/

namespace ServiceSchema

/-!
## Log lines

Diagnostics as the program reports them. Characters that could steer a terminal are given by their
codes.
-/

namespace Log

/-- A character of a message, with the ones that a terminal obeys made visible. -/
def visible (c : Char) : List Char :=
  if c = '\x1b' then "\\x1b".toList
  else if c = '\x07' then "\\x07".toList
  else if c = '\x08' then "\\x08".toList
  else if c = '\x0c' then "\\x0c".toList
  else if c = '\x7f' then "\\x7f".toList
  else if 0x80 ≤ c.toNat ∧ c.toNat ≤ 0x9f then
    ['\\', 'u', '\x7b'] ++ Nat.toDigits 16 c.toNat ++ ['\x7d']
  else [c]

def nameList (names : List String) : String :=
  "[" ++ String.intercalate ", " (names.map Text.displayed) ++ "]"

end Log

def Diagnostic.warning (d : Diagnostic) : String :=
  "WARN " ++ String.ofList (d.message.toList.flatMap Log.visible) ++ " names=" ++
    Log.nameList d.names

/-! ## Runs -/

structure Outcome where
  code : UInt32
  /-- The text on the standard output. -/
  output : String
  /-- The lines on the standard error. -/
  lines : List String
deriving DecidableEq, Repr

namespace Program

variable {m : Type → Type} [Monad m]

inductive Failure where
  | model (e : LoadError)
  | inputUnreadable (fault : FileFault)
  | generation (e : GenerationError)
  | circular (names : List String)
  | unknownBackend (name : String) (available : List String)
  | unwritable (path : String) (fault : FileFault)

namespace Failure

/-- The text of a failure. What went wrong with a description is told once more at the end. -/
def message : Failure → String
  | model e => e.message ++ ": " ++ e.cause
  | inputUnreadable fault => "failed to read model from stdin: " ++ fault.message
  | generation e => e.message
  | circular names => "circular references between " ++ String.intercalate ", " names
  | unknownBackend name available =>
    "unknown backend: " ++ name ++ " (available: " ++ String.intercalate ", " available ++ ")"
  | unwritable path fault => "failed to write " ++ path ++ ": " ++ fault.message

end Failure

def errorLine (message : String) : String :=
  "error: " ++ message

def modelOfInput : Except FileFault String → Except Failure ServiceModel
  | .error fault => .error (.inputUnreadable fault)
  | .ok text => (ServiceModel.parse text).mapError .model

def loadSource (files : FileAccess m) (source : String) : m (Except Failure ServiceModel) := do
  if source = "-" then return modelOfInput (← files.input)
  else return (← ServiceModel.load files source).mapError .model

/-- The options of a request; what the command line says comes before the settings. -/
def emitOptions (r : GenerateRequest) (s : Settings) : EmitOptions :=
  let o := s.emitOptions
  ⟨o.isExported && !r.noExport, o.infersTypes || r.inferTypes, r.suffix.getD o.suffix,
    o.importPath⟩

def backendName (r : GenerateRequest) (s : Settings) : String :=
  r.backend.getD s.effectiveBackend

def findBackend (name : String) : Except Failure Backend :=
  let (found, registry) := (Registry.find? name).run .unopened
  match found with
  | some b => .ok b
  | none => .error (.unknownBackend name (Registry.names.run registry).1)

/-- The warnings of a description, whether or not it can be turned into schemas. -/
def warnings (resolution : Except GenerationError Resolution) : List String :=
  match resolution with
  | .ok r => r.diagnostics.map Diagnostic.warning
  | .error _ => []

def render (r : GenerateRequest) (s : Settings) (resolution : Except GenerationError Resolution) :
    Except Failure String := do
  let resolution ← resolution.mapError Failure.generation
  if r.denyCircular && !resolution.isAcyclic then
    throw (.circular (resolution.circular.map Entity.name))
  let backend ← findBackend (backendName r s)
  return backend.render resolution.synthesis (emitOptions r s)

/-- Prints a text or writes it to the output file; `lines` have been printed before. -/
def deliver (files : FileAccess m) (output : Option String) (lines : List String) (text : String) :
    m Outcome := do
  match output with
  | none => return ⟨0, text, lines⟩
  | some path =>
    match ← files.write path text with
    | .ok () => return ⟨0, "", lines ++ ["Generated " ++ path]⟩
    | .error fault => return ⟨1, "", lines ++ [errorLine (Failure.unwritable path fault).message]⟩

def failed (lines : List String) (f : Failure) : Outcome :=
  ⟨1, "", lines ++ [errorLine f.message]⟩

def generate (files : FileAccess m) (s : Settings) (r : GenerateRequest) : m Outcome := do
  match ← loadSource files r.source with
  | .error f => return failed [] f
  | .ok model =>
    let resolution := model.resolve .pascal
    match render r s resolution with
    | .error f => return failed (warnings resolution) f
    | .ok text => deliver files r.output (warnings resolution) text

def padded (width : Nat) (s : String) : String :=
  s ++ String.ofList (List.replicate (width - s.length) ' ')

def backendLine (b : Backend) : String :=
  padded 8 b.name ++ " ." ++ b.extension ++ "\n"

def backends : Outcome :=
  ⟨0, String.join (((Registry.all).run .unopened).1.map backendLine), []⟩

def versionText : String := "normalize-schemagen 0.2.0\n"

/-- How the help begins; the commands and options that it lists are left out. -/
def helpText : String :=
  "Generate ordered validation schemas from service type models\n\n" ++
    "Usage: normalize-schemagen [--root <ROOT>] <generate|backends|help>\n"

/-- The outcome of a command line. One that is refused is reported without what is wrong with it. -/
def run (files : FileAccess m) (configHome : Option String) (args : List String) : m Outcome := do
  match Request.ofArguments args with
  | .settingsSchema => return ⟨0, SettingsSchema.text, []⟩
  | .version => return ⟨0, versionText, []⟩
  | .help => return ⟨0, helpText, []⟩
  | .refused => return ⟨2, "", ["error: invalid command line"]⟩
  | .run root command =>
    match ← Settings.load files configHome root with
    | .error e => return ⟨1, "", [errorLine e.message]⟩
    | .ok s =>
      match command with
      | .generate r => generate files s r
      | .backends => return backends

end Program

end ServiceSchema
