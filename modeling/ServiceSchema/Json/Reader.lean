import ServiceSchema.Json.Fault
/-!
# Reading JSON text

A reader takes characters from the front of a text and leaves the rest. Readers that open brackets
get the number of brackets that may still be opened.
-/

namespace ServiceSchema.Json

abbrev Reader (α : Type) := StateT (List Char) (Except Fault) α

/-- A reader below a limit on further open brackets. -/
abbrev Nested (α : Type) := Nat → Reader α

def openLimit : Nat := 127

namespace Reader

variable {α : Type}

def fail (f : Fault) : Reader α :=
  fun _ => .error f

end Reader

def isBlank (c : Char) : Bool :=
  c == ' ' || c == '\n' || c == '\t' || c == '\r'

/-- Passes blanks and shows the first character after them. -/
def peek : Reader (Option Char) :=
  fun cs => let rest := cs.dropWhile isBlank; .ok (rest.head?, rest)

def pass : Reader Unit :=
  fun cs => .ok ((), cs.drop 1)

def letters : List Char → Reader Unit
  | [] => pure ()
  | l :: ls => fun
    | [] => .error .valueEnds
    | c :: cs => if c = l then letters ls cs else .error .expectedIdent

def hexValue? (c : Char) : Option Nat :=
  if '0' ≤ c ∧ c ≤ '9' then some (c.toNat - '0'.toNat)
  else if 'a' ≤ c ∧ c ≤ 'f' then some (c.toNat - 'a'.toNat + 10)
  else if 'A' ≤ c ∧ c ≤ 'F' then some (c.toNat - 'A'.toNat + 10)
  else none

def byteCount (cs : List Char) : Nat :=
  cs.foldl (fun n c => n + c.utf8Size) 0

/-- The four hexadecimal digits of an escape, as a 16-bit unit. The text has to hold four more
bytes before the digits are looked at. -/
def hexUnit : Reader Nat := fun cs =>
  match cs with
  | a :: b :: c :: d :: rest =>
    match hexValue? a, hexValue? b, hexValue? c, hexValue? d with
    | some a, some b, some c, some d => .ok (((a * 16 + b) * 16 + c) * 16 + d, rest)
    | _, _, _, _ => .error .invalidEscape
  | _ => .error (if byteCount cs < 4 then .stringEnds else .invalidEscape)

def isLeading (n : Nat) : Bool :=
  decide (0xd800 ≤ n) && decide (n ≤ 0xdbff)

def isTrailing (n : Nat) : Bool :=
  decide (0xdc00 ≤ n) && decide (n ≤ 0xdfff)

def inString : Reader Char
  | [] => .error .stringEnds
  | c :: rest => .ok (c, rest)

/-- Passes a character that the second half of a surrogate pair must begin with. -/
def pairMark (mark : Char) : Reader Unit := do
  if (← inString) != mark then Reader.fail .hexEscapeEnds

/-- The character for the unit just read; a leading surrogate needs its trailing one. -/
def unitChar (n : Nat) : Reader Char := do
  if isTrailing n then Reader.fail .loneSurrogate
  else if isLeading n then do
    pairMark '\\'
    pairMark 'u'
    let m ← hexUnit
    if isTrailing m then pure (Char.ofNat ((n - 0xd800) * 0x400 + (m - 0xdc00) + 0x10000))
    else Reader.fail .loneSurrogate
  else pure (Char.ofNat n)

def escapeLetter? : Char → Option Char
  | '"' => some '"'
  | '\\' => some '\\'
  | '/' => some '/'
  | 'b' => some '\x08'
  | 'f' => some '\x0c'
  | 'n' => some '\n'
  | 'r' => some '\r'
  | 't' => some '\t'
  | _ => none

/-- What follows a backslash; `unit` finishes a hexadecimal escape. -/
def escapeWith {α : Type} (letter : Char → α) (unit : Nat → Reader α) : Reader α := do
  let c ← inString
  if c = 'u' then do unit (← hexUnit)
  else match escapeLetter? c with
    | some e => pure (letter e)
    | none => Reader.fail .invalidEscape

def stringPieces {α : Type} (plain : Char → α) (unit : Nat → Reader α) :
    (fuel : Nat) → Reader (List α)
  | 0 => Reader.fail .stringEnds
  | fuel + 1 => do
    let c ← inString
    if c = '"' then pure []
    else if c = '\\' then do
      let p ← escapeWith plain unit
      return p :: (← stringPieces plain unit fuel)
    else if c.toNat < 0x20 then Reader.fail .controlCharacter
    else return plain c :: (← stringPieces plain unit fuel)

def stringRest : Reader String := fun cs =>
  (do return String.ofList (← stringPieces id unitChar cs.length) : Reader String) cs

/-- Passes a string after its opening quote; its escapes need not name characters. -/
def skipString : Reader Unit := fun cs =>
  (do let _ ← stringPieces (fun _ => ()) (fun _ => pure ()) cs.length : Reader Unit) cs

/-- Applies a reader to a whole text; only blanks may be left. -/
def readAll {α : Type} (r : Reader α) (text : String) : Except Fault α :=
  match r text.toList with
  | .error f => .error f
  | .ok (a, rest) => if rest.all isBlank then .ok a else .error .trailingCharacters

end ServiceSchema.Json
