import ServiceSchema.Json.Numeral
/-!
# Skipping JSON values

The value of a field that nobody asked for is passed over. It has to follow the grammar, but it may
nest without a limit, its numbers may have any size, and its strings may name half a surrogate pair.
-/

namespace ServiceSchema.Json.Skip

inductive Bracket where
  | square
  | curly

namespace Bracket

def closing : Bracket → Char
  | square => ']'
  | curly => '\x7d'

def atEnd : Bracket → Fault
  | square => .listEnds
  | curly => .objectEnds

def expectedCommaOrEnd : Bracket → Fault
  | square => .expectedListCommaOrEnd
  | curly => .expectedObjectCommaOrEnd

end Bracket

/-- Passes a value, or only the bracket that opens it. -/
def head : Reader (Option Bracket) := do
  match ← peek with
  | none => Reader.fail .valueEnds
  | some 'n' => pass; letters "ull".toList; pure none
  | some 't' => pass; letters "rue".toList; pure none
  | some 'f' => pass; letters "alse".toList; pure none
  | some '"' => pass; skipString; pure none
  | some '[' => pass; pure (some .square)
  | some '\x7b' => pass; pure (some .curly)
  | some '-' => pass; let _ ← Numeral.read .invalidNumber; pure none
  | some c =>
    if c.isDigit then do let _ ← Numeral.read .invalidNumber; pure none
    else Reader.fail .expectedValue

def entryKey : Reader Unit := do
  match ← peek with
  | none => Reader.fail .objectEnds
  | some '"' => pass; skipString
  | some _ => Reader.fail .keyNotString
  match ← peek with
  | none => Reader.fail .objectEnds
  | some ':' => pass
  | some _ => Reader.fail .expectedColon

/-- Passes what comes between two values: commas, keys and closing brackets. `fresh` tells that the
innermost bracket has just been opened. The brackets still open are left; none at the end. -/
def between : (fresh : Bool) → List Bracket → Reader (List Bracket)
  | _, [] => pure []
  | fresh, b :: outer => do
    match ← peek with
    | none => Reader.fail b.atEnd
    | some c =>
      if c = b.closing then do pass; between false outer
      else if fresh then do
        if b matches .curly then entryKey
        pure (b :: outer)
      else if c = ',' then do
        pass
        if b matches .curly then entryKey
        pure (b :: outer)
      else Reader.fail b.expectedCommaOrEnd

def values : (fuel : Nat) → List Bracket → Reader Unit
  | 0, _ => Reader.fail .valueEnds
  | fuel + 1, openBrackets => do
    let rest ← match ← head with
      | none => between false openBrackets
      | some b => between true (b :: openBrackets)
    if rest.isEmpty then pure () else values fuel rest

end ServiceSchema.Json.Skip

namespace ServiceSchema.Json

def skipValue : Reader Unit :=
  fun cs => Skip.values (cs.length + 1) [] cs

end ServiceSchema.Json
