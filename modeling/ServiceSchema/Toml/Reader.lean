import ServiceSchema.Toml.Literal
import ServiceSchema.Toml.Table
/-!
# Reading TOML

Readers for keys, values and whole documents. A text either is a document or is not; no reason is
given.
-/

namespace ServiceSchema.Toml

/-- Takes characters from the front of a text and leaves the rest. -/
abbrev Reader (α : Type) := StateT (List Char) Option α

namespace Reader

def isBlank (c : Char) : Bool :=
  c == ' ' || c == '\t'

/-- Characters of comments and, but for their quotes, of strings. -/
def isText (c : Char) : Bool :=
  c == '\t' || (decide (0x20 ≤ c.toNat) && c.toNat != 0x7f)

def peek : Reader (Option Char) :=
  fun cs => some (cs.head?, cs)

def next : Reader Char
  | [] => none
  | c :: rest => some (c, rest)

def blanks : Reader Unit :=
  fun cs => some ((), cs.dropWhile isBlank)

def passes (mark : List Char) : Reader Bool :=
  fun cs => if mark.isPrefixOf cs then some (true, cs.drop mark.length) else some (false, cs)

def expect (mark : List Char) : Reader Unit := do
  guard (← passes mark)

def lineBreak? : Reader Bool := do
  if ← passes ['\n'] then return true else passes ['\r', '\n']

def comment : Reader Unit := do
  if ← passes ['#'] then fun cs => some ((), cs.dropWhile isText)

def lineEnd : Reader Unit := do
  blanks
  comment
  guard ((← lineBreak?) || (← peek).isNone)

def gapFrom : (fuel : Nat) → Reader Unit
  | 0 => failure
  | fuel + 1 => do
    blanks
    comment
    if ← lineBreak? then gapFrom fuel

def gap : Reader Unit :=
  fun cs => gapFrom (cs.length + 1) cs

def codeChar (digits : Nat) : Reader Char := fun cs =>
  let code := cs.take digits
  let n := Literal.naturalValue 16 code
  if code.length = digits ∧ code.all (Literal.isDigitOf 16) ∧ n.isValidChar then
    some (Char.ofNat n, cs.drop digits)
  else none

def escape : Reader Char := do
  match ← next with
  | 'b' => return '\x08'
  | 't' => return '\t'
  | 'n' => return '\n'
  | 'f' => return '\x0c'
  | 'r' => return '\r'
  | '"' => return '"'
  | '\\' => return '\\'
  | 'u' => codeChar 4
  | 'U' => codeChar 8
  | _ => failure

def lineString (quote : Char) (escapes : Bool) : (fuel : Nat) → Reader (List Char)
  | 0 => failure
  | fuel + 1 => do
    let c ← next
    if c = quote then return []
    else if escapes && c == '\\' then return (← escape) :: (← lineString quote escapes fuel)
    else
      guard (isText c)
      return c :: (← lineString quote escapes fuel)

def whiteFrom : (fuel : Nat) → Reader Unit
  | 0 => failure
  | fuel + 1 => do
    blanks
    if ← lineBreak? then whiteFrom fuel

/-- Passes what separates the parts of a line that was broken after a backslash: the rest of the
line, if it is blank, and all blanks and line breaks after it. -/
def joint? : Reader Bool := fun cs =>
  let rest := cs.dropWhile isBlank
  if rest.head? == some '\n' || ['\r', '\n'].isPrefixOf rest then
    (do whiteFrom (cs.length + 1); return true : Reader Bool) cs
  else some (false, cs)

/-- The rest of a string over several lines. Up to two quotes may stand right before the three that
close it. -/
def blockString (quote : Char) (escapes : Bool) : (fuel : Nat) → Reader (List Char)
  | 0 => failure
  | fuel + 1 => do
    if ← lineBreak? then return '\n' :: (← blockString quote escapes fuel)
    else if (← peek) = some quote then
      let run := (← get).takeWhile (· == quote)
      if run.length < 3 then
        set ((← get).drop run.length)
        return run ++ (← blockString quote escapes fuel)
      else
        guard (run.length ≤ 5)
        set ((← get).drop run.length)
        return run.drop 3
    else
      let c ← next
      if escapes && c == '\\' then
        if ← joint? then blockString quote escapes fuel
        else return (← escape) :: (← blockString quote escapes fuel)
      else
        guard (isText c)
        return c :: (← blockString quote escapes fuel)

def shortString (quote : Char) : Reader String := fun cs =>
  (do return String.ofList (← lineString quote (quote == '"') cs.length) : Reader String) cs

def string (quote : Char) : Reader String := do
  if ← passes [quote, quote, quote] then
    let _ ← lineBreak?
    fun cs =>
      (do return String.ofList (← blockString quote (quote == '"') (cs.length + 1)) :
        Reader String) cs
  else
    expect [quote]
    shortString quote

def isBareKey (c : Char) : Bool :=
  c.isAlphanum || c == '_' || c == '-'

def simpleKey : Reader String := do
  match ← peek with
  | some '"' => let _ ← next; shortString '"'
  | some '\'' => let _ ← next; shortString '\''
  | _ => fun cs =>
    let key := cs.takeWhile isBareKey
    if key.isEmpty then none else some (String.ofList key, cs.dropWhile isBareKey)

/-- Keys, values and tables nest below this depth. -/
def nestingBound : Nat := 80

def dottedKeyFrom : (fuel : Nat) → Reader (List String)
  | 0 => failure
  | fuel + 1 => do
    blanks
    let key ← simpleKey
    blanks
    if ← passes ['.'] then return key :: (← dottedKeyFrom fuel) else return [key]

def dottedKey : Reader (List String) := do
  let path ← dottedKeyFrom nestingBound
  guard (path.length < nestingBound)
  return path

def isLiteral (c : Char) : Bool :=
  c.isAlphanum || c == '+' || c == '-' || c == '_' || c == '.' || c == ':'

def literalValue? (cs : List Char) : Option Value :=
  if cs == "true".toList then some (.boolean true)
  else if cs == "false".toList then some (.boolean false)
  else if Literal.isMoment cs then some (.moment cs)
  else match Literal.integer? cs with
    | some i => some (.integer i)
    | none => if Literal.isFloat cs then some (.float cs) else none

/-- A boolean, a number, or a date and time; between a date and its time a blank may stand. -/
def literal : Reader Value := fun cs =>
  let word := cs.takeWhile isLiteral
  let rest := cs.dropWhile isLiteral
  let time := (rest.drop 1).takeWhile isLiteral
  if Literal.isDate word && rest.head? == some ' ' && !time.isEmpty then
    (literalValue? (word ++ ' ' :: time)).map fun v => (v, (rest.drop 1).dropWhile isLiteral)
  else (literalValue? word).map fun v => (v, rest)

def arrayItems (value : Reader Value) : (fuel : Nat) → Reader (List Value)
  | 0 => failure
  | fuel + 1 => do
    gap
    if ← passes [']'] then return []
    let v ← value
    gap
    if ← passes [','] then return v :: (← arrayItems value fuel)
    expect [']']
    return [v]

/-- Entries of an inline table after its bracket; `first` tells that none has been read. -/
def inlineEntries (value : Reader Value) : (fuel : Nat) → (first : Bool) → Entries → Reader Entries
  | 0, _, _ => failure
  | fuel + 1, first, es => do
    blanks
    if first then
      if ← passes ['\x7d'] then return es
    let path ← dottedKey
    expect ['=']
    blanks
    let v ← value
    blanks
    let es ← (es.assign v path : Option Entries)
    if ← passes [','] then inlineEntries value fuel false es
    else
      expect ['\x7d']
      return es

def value : (depth : Nat) → Reader Value
  | 0 => failure
  | depth + 1 => do
    match ← peek with
    | some '"' => return .string (← string '"')
    | some '\'' => return .string (← string '\'')
    | some '[' =>
      let _ ← next
      guard (0 < depth)
      return .array (← fun cs => arrayItems (value depth) (cs.length + 1) cs)
    | some '\x7b' =>
      let _ ← next
      guard (0 < depth)
      return .table (finishEntries
        (← fun cs => inlineEntries (value depth) (cs.length + 1) true [] cs))
    | _ => literal

/-- A document in the making: its tables, and the path of the current one. -/
structure Draft where
  root : Entries
  path : List String

def header (d : Draft) : Reader Draft := do
  let isArray ← passes ['[']
  let path ← dottedKey
  expect (if isArray then [']', ']'] else [']'])
  lineEnd
  let key ← (path.getLast? : Option String)
  let root ← (d.root.atPath (if isArray then Entries.openNext key else Entries.openTable key)
    path.dropLast : Option Entries)
  return ⟨root, path⟩

def keyValue (d : Draft) : Reader Draft := do
  let path ← dottedKey
  expect ['=']
  blanks
  let v ← value nestingBound
  lineEnd
  let root ← (d.root.atPath (Entries.assign v path) d.path : Option Entries)
  return ⟨root, d.path⟩

def linesFrom : (fuel : Nat) → Draft → Reader Draft
  | 0, _ => failure
  | fuel + 1, d => do
    gap
    match ← peek with
    | none => return d
    | some '[' =>
      let _ ← next
      linesFrom fuel (← header d)
    | some _ => linesFrom fuel (← keyValue d)

end Reader

/-- Reads a document; a byte order mark may come first. -/
def readDocument (text : String) : Option (List (String × Value)) := do
  let cs := text.toList
  let cs := if cs.head? == some '\ufeff' then cs.drop 1 else cs
  let (d, _) ← Reader.linesFrom (cs.length + 1) ⟨[], []⟩ cs
  return finishEntries d.root

end ServiceSchema.Toml
