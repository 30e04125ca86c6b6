/-!
# Arguments

The command line is read from left to right. Options before the command belong to the program,
options after it to the command; only `--root` is known to both. A request for help or for the
version counts as soon as it is reached, and so does anything that is not understood.
-/

namespace ServiceSchema

/-- What to generate, as far as the command line says. -/
structure GenerateRequest where
  /-- The file that holds the service description; a hyphen stands for the input. -/
  source : String
  backend : Option String
  output : Option String
  noExport : Bool
  inferTypes : Bool
  suffix : Option String
  denyCircular : Bool
deriving DecidableEq, Repr

inductive Command where
  | generate (r : GenerateRequest)
  | backends
deriving DecidableEq, Repr

inductive Request where
  | settingsSchema
  | version
  | help
  | refused
  | run (root : String) (command : Command)
deriving DecidableEq, Repr

namespace Arguments

inductive Setting where
  | root
  | backend
  | output
  | suffix
deriving DecidableEq, Repr

namespace Setting

def long : Setting → String
  | root => "root"
  | backend => "backend"
  | output => "output"
  | suffix => "suffix"

def short? : Setting → Option Char
  | backend => some 'b'
  | output => some 'o'
  | _ => none

/-- Paths may not be empty. -/
def accepts (s : Setting) (value : String) : Bool :=
  match s with
  | root | output => !value.isEmpty
  | backend | suffix => true

end Setting

inductive Flag where
  | noExport
  | inferTypes
  | denyCircular
deriving DecidableEq, Repr

def Flag.long : Flag → String
  | noExport => "no-export"
  | inferTypes => "infer-types"
  | denyCircular => "deny-circular"

/-- What may be given at one place of the command line. -/
structure Level where
  settings : List Setting
  flags : List Flag
  /-- The greatest number of words. -/
  words : Nat
  /-- Whether the first word is the name of a command, which ends the level. -/
  isTop : Bool

def Level.program : Level :=
  ⟨[.root], [], 0, true⟩

def Level.generate : Level :=
  ⟨[.root, .backend, .output, .suffix], [.noExport, .inferTypes, .denyCircular], 1, false⟩

def Level.backends : Level :=
  ⟨[.root], [], 0, false⟩

structure Given where
  settings : List (Setting × String)
  flags : List Flag
  words : List String

namespace Given

def nothing : Given :=
  ⟨[], [], []⟩

def setting? (g : Given) (s : Setting) : Option String :=
  g.settings.lookup s

end Given

inductive Stop where
  | refused
  | help
  | version
deriving DecidableEq, Repr

inductive Token where
  /-- Two hyphens: only words follow. -/
  | wordsOnly
  | long (name : String) (value : Option String)
  | short (letter : Char) (rest : List Char)
  | word

def token (arg : String) : Token :=
  match arg.toList with
  | ['-', '-'] => .wordsOnly
  | '-' :: '-' :: cs =>
    let name := cs.takeWhile (· != '=')
    match cs.dropWhile (· != '=') with
    | [] => .long (String.ofList name) none
    | _ :: value => .long (String.ofList name) (some (String.ofList value))
  | '-' :: c :: cs => .short c cs
  | _ => .word

def isValue (arg : String) : Bool :=
  match token arg with
  | .word => true
  | _ => false

/-- Records an option with its value; no option may be given twice at one level. -/
def give (g : Given) (s : Setting) (value : String) : Except Stop Given :=
  if (g.setting? s).isSome || !s.accepts value then .error .refused
  else .ok { g with settings := (s, value) :: g.settings }

def giveFlag (g : Given) (f : Flag) : Except Stop Given :=
  if g.flags.contains f then .error .refused else .ok { g with flags := f :: g.flags }

def giveWord (l : Level) (g : Given) (word : String) : Except Stop Given :=
  if word.isEmpty || decide (l.words ≤ g.words.length) then .error .refused
  else .ok { g with words := g.words ++ [word] }

/-- The value that comes with a short option in one argument. -/
def attached? : List Char → Option String
  | [] => none
  | '=' :: cs => some (String.ofList cs)
  | cs => some (String.ofList cs)

inductive Meaning where
  | setting (s : Setting) (value : Option String)
  | flag (f : Flag)
  | stop (s : Stop)

def Level.longMeaning (l : Level) (name : String) (value : Option String) : Meaning :=
  match l.settings.find? (·.long == name) with
  | some s => .setting s value
  | none =>
    if value.isSome then .stop .refused
    else match l.flags.find? (·.long == name) with
      | some f => .flag f
      | none =>
        if name == "help" then .stop .help
        else if name == "version" && l.isTop then .stop .version
        else .stop .refused

def Level.shortMeaning (l : Level) (letter : Char) (rest : List Char) : Meaning :=
  match l.settings.find? (·.short? == some letter) with
  | some s => .setting s (attached? rest)
  | none =>
    if letter == 'h' then .stop .help
    else if letter == 'V' && l.isTop then .stop .version
    else .stop .refused

def Level.meaning? (l : Level) (arg : String) : Option Meaning :=
  match token arg with
  | .long name value => some (l.longMeaning name value)
  | .short letter rest => some (l.shortMeaning letter rest)
  | _ => none

/-- Reads the arguments of a level; what is left comes with what has been given. -/
def read (l : Level) (g : Given) : List String → Except Stop (Given × List String)
  | [] => .ok (g, [])
  | arg :: rest =>
    match l.meaning? arg with
    | some (.stop s) => .error s
    | some (.flag f) => do read l (← giveFlag g f) rest
    | some (.setting s (some value)) => do read l (← give g s value) rest
    | some (.setting s none) =>
      match rest with
      | [] => .error .refused
      | value :: rest =>
        if isValue value then do read l (← give g s value) rest else .error .refused
    | none =>
      if l.isTop then .ok (g, arg :: rest)
      else if arg = "--" then do return (← rest.foldlM (giveWord l) g, [])
      else do read l (← giveWord l g arg) rest

def generateRequest? (g : Given) : Option GenerateRequest :=
  match g.words with
  | [source] =>
    some ⟨source, g.setting? .backend, g.setting? .output, g.flags.contains .noExport,
      g.flags.contains .inferTypes, g.setting? .suffix, g.flags.contains .denyCircular⟩
  | _ => none

def commandNames : List String :=
  ["generate", "backends", "help"]

/-- The root that is given last along the levels; the working directory otherwise. -/
def root (top inner : Given) : String :=
  (inner.setting? .root).getD ((top.setting? .root).getD ".")

def readCommand (top : Given) : List String → Except Stop Request
  | "generate" :: args => do
    let (g, _) ← read .generate .nothing args
    match generateRequest? g with
    | some r => .ok (.run (root top g) (.generate r))
    | none => .error .refused
  | "backends" :: args => do
    let (g, _) ← read .backends .nothing args
    return .run (root top g) .backends
  | ["help"] => .error .help
  | ["help", name] => .error (if commandNames.contains name then .help else .refused)
  | _ => .error .refused

end Arguments

/-- What a command line asks for. The settings schema is only given when it is asked for first. -/
def Request.ofArguments (args : List String) : Request :=
  if args.head? = some "--schema" then .settingsSchema
  else
    let outcome := do
      let (top, rest) ← Arguments.read .program .nothing args
      Arguments.readCommand top rest
    match outcome with
    | .ok r => r
    | .error .refused => .refused
    | .error .help => .help
    | .error .version => .version

end ServiceSchema
