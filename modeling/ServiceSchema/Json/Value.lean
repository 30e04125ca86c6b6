import ServiceSchema.Json.Skip
/-!
# Reading JSON values

Readers for lists and objects of any content, and the reader of JSON values built from them. Every
reader for a kind of value starts with the same head: a whole scalar or the bracket that opens a
list or an object.
-/

namespace ServiceSchema.Json

variable {α σ : Type}

/-- A scalar, or the kind of the bracket just passed. -/
inductive Head where
  | scalar (j : Json)
  | list
  | object

def Head.found : Head → Found
  | scalar j => j.found
  | list => .sequence
  | object => .map

def head : Reader Head := do
  match ← peek with
  | none => Reader.fail .valueEnds
  | some 'n' => pass; letters "ull".toList; return .scalar .null
  | some 't' => pass; letters "rue".toList; return .scalar (.bool true)
  | some 'f' => pass; letters "alse".toList; return .scalar (.bool false)
  | some '"' => pass; return .scalar (.string (← stringRest))
  | some '[' => pass; return .list
  | some '\x7b' => pass; return .object
  | some '-' => pass; return .scalar (.number (← numberRest true))
  | some c =>
    if c.isDigit then do return .scalar (.number (← numberRest false))
    else Reader.fail .expectedValue

namespace Reader

def wrongType (h : Head) (wanted : String) : Reader α :=
  fail (.wrongType h.found wanted)

def stringAs (wanted : String) : Reader String := do
  match ← head with
  | .scalar (.string s) => pure s
  | h => wrongType h wanted

def string : Reader String :=
  stringAs "a string"

def bool : Reader Bool := do
  match ← head with
  | .scalar (.bool b) => pure b
  | h => wrongType h "a boolean"

def unit : Reader Unit := do
  match ← head with
  | .scalar .null => pure ()
  | h => wrongType h "unit"

/-- Below a bracket one bracket fewer may be opened. -/
def opened (r : Nested α) : Nested α
  | 0 => fail .recursionLimit
  | d + 1 => r d

def anotherItem (first : Bool) : Reader Bool := do
  match ← peek with
  | none => fail .listEnds
  | some c =>
    if c = ']' then pure false
    else if first then pure true
    else if c = ',' then do
      pass
      match ← peek with
      | none => fail .valueEnds
      | some c => if c = ']' then fail .trailingComma else pure true
    else fail .expectedListCommaOrEnd

def itemsFrom (item : Reader α) : (fuel : Nat) → (first : Bool) → Reader (List α)
  | 0, _ => fail .listEnds
  | fuel + 1, first => do
    if ← anotherItem first then
      let a ← item
      return a :: (← itemsFrom item fuel false)
    else
      pass
      return []

def items (item : Reader α) : Reader (List α) :=
  fun cs => itemsFrom item (cs.length + 1) true cs

def anotherKey (first : Bool) : Reader (Option String) := do
  match ← peek with
  | none => fail .objectEnds
  | some c =>
    if c = '\x7d' then pure none
    else if first then
      if c = '"' then do pass; return some (← stringRest)
      else fail .keyNotString
    else if c = ',' then do
      pass
      match ← peek with
      | none => fail .valueEnds
      | some c =>
        if c = '"' then do pass; return some (← stringRest)
        else if c = '\x7d' then fail .trailingComma
        else fail .keyNotString
    else fail .expectedObjectCommaOrEnd

def colon : Reader Unit := do
  match ← peek with
  | none => fail .objectEnds
  | some c => if c = ':' then pass else fail .expectedColon

/-- Folds the entries of an object up to its closing bracket, which is left; `entry` reads what
follows a key. -/
def foldEntriesFrom (entry : String → σ → Reader σ) :
    (fuel : Nat) → (first : Bool) → σ → Reader σ
  | 0, _, _ => fail .objectEnds
  | fuel + 1, first, s => do
    match ← anotherKey first with
    | none => pure s
    | some key => foldEntriesFrom entry fuel false (← entry key s)

def foldEntries (entry : String → σ → Reader σ) (s : σ) : Reader σ :=
  fun cs => foldEntriesFrom entry (cs.length + 1) true s cs

def entries (value : Reader α) : Reader (List (String × α)) := do
  let reversed ← foldEntries (fun key read => do colon; return (key, ← value) :: read) []
  pass
  return reversed.reverse

def list (item : Nested α) : Nested (List α) := fun d => do
  match ← head with
  | .list => opened (fun d => items (item d)) d
  | h => wrongType h "a sequence"

/-- An object with values of one kind; its keys are kept increasing, and the last of equal keys
counts. -/
def keyed (value : Nested α) : Nested (List (String × α)) := fun d => do
  match ← head with
  | .object => opened (fun d => do return sortEntries (← entries (value d))) d
  | h => wrongType h "a map"

def nullable (r : Reader α) : Reader (Option α) := do
  match ← peek with
  | some 'n' => pass; letters "ull".toList; return none
  | _ => return some (← r)

def value : Nested Json
  | 0 => do
    match ← head with
    | .scalar j => pure j
    | _ => fail .recursionLimit
  | d + 1 => do
    match ← head with
    | .scalar j => pure j
    | .list => return .array (← items (value d))
    | .object => return .object (← entries (value d))

/-- A JSON value in sorted form. -/
def constant : Nested Json := fun d => do
  return (← value d).sorted

end Reader

end ServiceSchema.Json
