import ServiceSchema.Json.Printer
import ServiceSchema.Text.Quoted
/-!
# Faults of JSON text

Why a text was refused: a place where it breaks the grammar, or a value of the wrong shape. Reading
goes from left to right and reports the first fault.
-/

namespace ServiceSchema.Json

/-- What stood where another kind of value was wanted. -/
inductive Found where
  | null
  | bool (b : Bool)
  | integer (i : Int)
  | float (x : Decimal.Binary64)
  | string (s : String)
  | map
  | sequence
  | unitVariant

def Found.text : Found → String
  | null => "null"
  | bool b => "boolean `" ++ String.ofList (boolText b) ++ "`"
  | integer i => "integer `" ++ toString i ++ "`"
  | float x => "floating point `" ++ String.ofList (floatLayout.text x) ++ "`"
  | string s => "string " ++ Text.displayed s
  | map => "map"
  | sequence => "sequence"
  | unitVariant => "unit variant"

def Number.found : Number → Found
  | integer i _ => .integer i
  | float x => .float x

def found : Json → Found
  | null => .null
  | bool b => .bool b
  | number n => n.found
  | string s => .string s
  | array _ => .sequence
  | object _ => .map

inductive Fault where
  | valueEnds
  | listEnds
  | objectEnds
  | stringEnds
  | expectedValue
  | expectedIdent
  | expectedColon
  | expectedListCommaOrEnd
  | expectedObjectCommaOrEnd
  | trailingComma
  | trailingCharacters
  | keyNotString
  | invalidNumber
  | numberOutOfRange
  | invalidEscape
  | loneSurrogate
  | hexEscapeEnds
  | controlCharacter
  | recursionLimit
  | wrongType (found : Found) (wanted : String)
  | wrongValue (found : Found) (wanted : String)
  | wrongLength (length : Nat) (wanted : String)
  | unknownVariant (name : String) (known : List String)
  | missingField (name : String)
  | duplicateField (name : String)

namespace Fault

def tick (s : String) : String :=
  "`" ++ s ++ "`"

/-- The text of a fault. The line and the column of the fault are left out; they would follow the
text. -/
def message : Fault → String
  | valueEnds => "EOF while parsing a value"
  | listEnds => "EOF while parsing a list"
  | objectEnds => "EOF while parsing an object"
  | stringEnds => "EOF while parsing a string"
  | expectedValue => "expected value"
  | expectedIdent => "expected ident"
  | expectedColon => "expected `:`"
  | expectedListCommaOrEnd => "expected `,` or `]`"
  | expectedObjectCommaOrEnd => "expected `,` or `\x7d`"
  | trailingComma => "trailing comma"
  | trailingCharacters => "trailing characters"
  | keyNotString => "key must be a string"
  | invalidNumber => "invalid number"
  | numberOutOfRange => "number out of range"
  | invalidEscape => "invalid escape"
  | loneSurrogate => "lone leading surrogate in hex escape"
  | hexEscapeEnds => "unexpected end of hex escape"
  | controlCharacter => "control character (\\u0000-\\u001F) found while parsing a string"
  | recursionLimit => "recursion limit exceeded"
  | wrongType found wanted => "invalid type: " ++ found.text ++ ", expected " ++ wanted
  | wrongValue found wanted => "invalid value: " ++ found.text ++ ", expected " ++ wanted
  | wrongLength length wanted => "invalid length " ++ toString length ++ ", expected " ++ wanted
  | unknownVariant name known =>
    "unknown variant " ++ tick name ++ ", expected one of " ++
      String.intercalate ", " (known.map tick)
  | missingField name => "missing field " ++ tick name
  | duplicateField name => "duplicate field " ++ tick name

end Fault

end ServiceSchema.Json
