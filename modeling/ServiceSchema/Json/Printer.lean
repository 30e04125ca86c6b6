import ServiceSchema.Decimal
import ServiceSchema.Json.Basic
import ServiceSchema.Text.Quoted
/-!
# JSON text

Two forms of a value: compact, without blanks, and pretty, with one item or entry to a line. Both
keep the order of entries.
-/

namespace ServiceSchema.Json

open Decimal (Layout)

/-- Floating-point numbers from `0.00001` up to sixteen whole digits are written plainly. -/
def floatLayout : Layout :=
  ⟨-5, 15⟩

def natText (n : Nat) : List Char :=
  Nat.toDigits 10 n

def Number.text : Number → List Char
  | integer i _ => (if i < 0 then ['-'] else []) ++ natText i.natAbs
  | float x => floatLayout.text x

def boolText (b : Bool) : List Char :=
  if b then "true".toList else "false".toList

mutual

def compact : Json → List Char
  | null => "null".toList
  | bool b => boolText b
  | number n => n.text
  | string s => Text.quoted s
  | array items => '[' :: (compactItems items ++ [']'])
  | object entries => '\x7b' :: (compactEntries entries ++ ['\x7d'])

def compactItems : List Json → List Char
  | [] => []
  | [j] => j.compact
  | j :: js => j.compact ++ ',' :: compactItems js

def compactEntries : List (String × Json) → List Char
  | [] => []
  | [(k, j)] => Text.quoted k ++ ':' :: j.compact
  | (k, j) :: rest => Text.quoted k ++ ':' :: (j.compact ++ ',' :: compactEntries rest)

end

/-- A line break and the blanks that open a line at a depth. -/
def lineBreak (depth : Nat) : List Char :=
  '\n' :: List.replicate (2 * depth) ' '

mutual

def prettyAt (depth : Nat) : Json → List Char
  | null => "null".toList
  | bool b => boolText b
  | number n => n.text
  | string s => Text.quoted s
  | array [] => "[]".toList
  | array (j :: js) =>
    '[' :: (prettyItems (depth + 1) (j :: js) ++ (lineBreak depth ++ [']']))
  | object [] => "\x7b\x7d".toList
  | object (e :: rest) =>
    '\x7b' :: (prettyEntries (depth + 1) (e :: rest) ++ (lineBreak depth ++ ['\x7d']))

def prettyItems (depth : Nat) : List Json → List Char
  | [] => []
  | [j] => lineBreak depth ++ j.prettyAt depth
  | j :: js => lineBreak depth ++ (j.prettyAt depth ++ ',' :: prettyItems depth js)

def prettyEntries (depth : Nat) : List (String × Json) → List Char
  | [] => []
  | [(k, j)] => lineBreak depth ++ (Text.quoted k ++ ':' :: ' ' :: j.prettyAt depth)
  | (k, j) :: rest =>
    lineBreak depth ++
      (Text.quoted k ++ ':' :: ' ' :: (j.prettyAt depth ++ ',' :: prettyEntries depth rest))

end

def pretty (j : Json) : List Char :=
  j.prettyAt 0

end ServiceSchema.Json
