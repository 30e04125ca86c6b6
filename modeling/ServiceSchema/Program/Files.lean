/-!
# Files

A tree of files as the program sees it, with paths as they are given: absolute, or relative to the
working directory.
-/

namespace ServiceSchema

inductive FileFault where
  | notFound
  | notDirectory
  | isDirectory
  /-- The path, or the name of one of its steps, takes too many bytes. -/
  | nameTooLong
  /-- The content is not text. -/
  | notText
  | other (reason : String)
deriving DecidableEq, Repr

namespace FileFault

def message : FileFault → String
  | notFound => "No such file or directory (os error 2)"
  | notDirectory => "Not a directory (os error 20)"
  | isDirectory => "Is a directory (os error 21)"
  | nameTooLong => "File name too long (os error 36)"
  | notText => "stream did not contain valid UTF-8"
  | other reason => reason

end FileFault

namespace Path

def join (directory name : String) : String :=
  if directory.isEmpty || directory.endsWith "/" then directory ++ name
  else directory ++ "/" ++ name

def steps (path : String) : List String :=
  ((path.toList.splitOn '/').filter (· != [])).map String.ofList

def isAbsolute (path : String) : Bool :=
  path.startsWith "/"

def namesDirectory (path : String) : Bool :=
  path.endsWith "/"

def lengthBound : Nat := 4096

def longestName : Nat := 255

end Path

inductive FileNode where
  | directory
  | text (content : String)
  /-- A file whose content is not text. -/
  | binary
deriving DecidableEq, Repr

/-- What is where. A directory that holds something need not be listed, nor the working directory
and those above it. -/
structure FileTree where
  workingDirectory : List String
  nodes : List (List String × FileNode)

namespace FileTree

def isBelow (directory : List String) (place : List String) : Bool :=
  directory.isPrefixOf place && directory != place

def node? (t : FileTree) (place : List String) : Option FileNode :=
  match t.nodes.lookup place with
  | some n => some n
  | none =>
    if place.isPrefixOf t.workingDirectory || t.nodes.any (fun e => isBelow place e.1) then
      some .directory
    else none

def step (t : FileTree) (place : List String) (s : String) : Except FileFault (List String) :=
  match t.node? place with
  | none => .error .notFound
  | some .directory =>
    if s = "." then .ok place
    else if s = ".." then .ok place.dropLast
    else if Path.longestName < s.utf8ByteSize then .error .nameTooLong
    else .ok (place ++ [s])
  | some _ => .error .notDirectory

/-- Walks along the steps of a path; all but the last have to lead to directories. -/
def walk (t : FileTree) : (place : List String) → (steps : List String) →
    Except FileFault (List String)
  | place, [] => .ok place
  | place, s :: steps => do t.walk (← t.step place s) steps

def follow (t : FileTree) (path : String) (steps : List String) : Except FileFault (List String) :=
  if Path.lengthBound ≤ path.utf8ByteSize then .error .nameTooLong
  else t.walk (if Path.isAbsolute path then [] else t.workingDirectory) steps

def place (t : FileTree) (path : String) : Except FileFault (List String) :=
  t.follow path (Path.steps path)

def parent (t : FileTree) (path : String) : Except FileFault (List String) := do
  t.step (← t.follow path (Path.steps path).dropLast) "."

def read (t : FileTree) (path : String) : Except FileFault String := do
  match t.node? (← t.place path) with
  | none => .error .notFound
  | some .directory => .error .isDirectory
  | some (.text content) =>
    if Path.namesDirectory path then .error .notDirectory else .ok content
  | some .binary =>
    if Path.namesDirectory path then .error .notDirectory else .error .notText

def withText (t : FileTree) (place : List String) (content : String) : FileTree :=
  { t with nodes := (place, .text content) :: t.nodes.filter (·.1 != place) }

/-- Gives a file a new content, also when it was not there. A path that asks for a directory is
refused without a look at what it leads to. -/
def write (t : FileTree) (path content : String) : Except FileFault FileTree := do
  if Path.namesDirectory path then
    let _ ← t.parent path
    .error .isDirectory
  else
    let place ← t.place path
    match t.node? place with
    | some .directory => .error .isDirectory
    | _ => .ok (t.withText place content)

end FileTree

structure FileAccess (m : Type → Type) where
  read : (path : String) → m (Except FileFault String)
  write : (path content : String) → m (Except FileFault Unit)
  input : m (Except FileFault String)

namespace FileTree

/-- Access to a tree that is kept as a state, when reading the input has the given outcome. -/
def accessFrom (input : Except FileFault String) : FileAccess (StateM FileTree) where
  read path := do return (← get).read path
  write path content := do
    match (← get).write path content with
    | .ok t => set t; return .ok ()
    | .error f => return .error f
  input := return input

def access (input : String) : FileAccess (StateM FileTree) :=
  accessFrom (.ok input)

end FileTree

end ServiceSchema
