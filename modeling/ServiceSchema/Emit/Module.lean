import ServiceSchema.Json.Printer
import ServiceSchema.Synthesis
/-!
# Modules

Schemas written as a TypeScript module: one constant for each definition. The text of a schema
depends on its depth only in the blanks that open its lines. A definition that looks up a schema
when it is used is annotated, since its own type cannot be inferred.
-/

namespace ServiceSchema

/-! ## Options -/

structure EmitOptions where
  /-- Whether declarations are exported. -/
  isExported : Bool
  /-- Whether each schema is followed by the type inferred from it. -/
  infersTypes : Bool
  /-- What identifiers of schemas end in. -/
  suffix : String
  /-- The module that provides the schema library. -/
  importPath : String
deriving DecidableEq, Repr

namespace EmitOptions

def standard : EmitOptions :=
  ⟨true, false, "Schema", "zod"⟩

def identifier (o : EmitOptions) (name : String) : String :=
  name ++ o.suffix

end EmitOptions

/-! ## Pieces of text -/

namespace Emit

open Text (quoted)
open Json (natText lineBreak)

def commaList : List (List Char) → List Char
  | [] => []
  | [p] => p
  | p :: ps => p ++ ',' :: ' ' :: commaList ps

def quotedList (ss : List String) : List Char :=
  '[' :: (commaList (ss.map quoted) ++ [']'])

def isIdentifierStart (c : Char) : Bool :=
  c.isAlpha || c == '_' || c == '$'

def isIdentifierRest (c : Char) : Bool :=
  c.isAlphanum || c == '_' || c == '$'

def isIdentifier : List Char → Bool
  | [] => false
  | c :: cs => isIdentifierStart c && cs.all isIdentifierRest

/-- A property key: an identifier stands for itself, any other key is quoted. -/
def property (name : String) : List Char :=
  if isIdentifier name.toList then name.toList else quoted name

def call (name : String) : List Char :=
  '.' :: (name.toList ++ ['(', ')'])

def callWith (name : String) (arg : List Char) : List Char :=
  '.' :: (name.toList ++ '(' :: (arg ++ [')']))

def countText (n : UInt64) : List Char :=
  natText n.toNat

def keyCount (comparison : String) (count : UInt64) (message : String) : List Char :=
  ".refine((value) => Object.keys(value).length ".toList ++ comparison.toList ++ ' ' ::
    (countText count ++ ", \x7b message: ".toList ++ quoted message ++ " \x7d)".toList)

def primitive (coerce : Bool) (name : String) : List Char :=
  (if coerce then "z.coerce.".toList else "z.".toList) ++ name.toList ++ ['(', ')']

/-- A line at a depth, after a line break. -/
def line (depth : Nat) (text : String) : List Char :=
  lineBreak depth ++ text.toList

end Emit

namespace Schema

open Emit Json
open Text (quoted)

mutual

/-- The text of a schema whose first line stands at a depth. -/
def textAt (o : EmitOptions) (depth : Nat) : Schema → List Char
  | ⟨base, ops⟩ => base.textAt o depth ++ Op.textOfAll o depth ops

def Base.textAt (o : EmitOptions) (depth : Nat) : Base → List Char
  | .string => primitive false "string"
  | .number coerce => primitive coerce "number"
  | .boolean coerce => primitive coerce "boolean"
  | .date coerce => primitive coerce "date"
  | .any => primitive false "any"
  | .null => primitive false "null"
  | .literal value => "z.literal(".toList ++ value.compact ++ [')']
  | .enum values => "z.enum(".toList ++ quotedList values ++ [')']
  | .ref name => (o.identifier name).toList
  | .lazy name => "z.lazy(() => ".toList ++ (o.identifier name).toList ++ [')']
  | .object [] => "z.object(\x7b\x7d)".toList
  | .object (f :: fs) =>
    "z.object(\x7b".toList ++ f.textAt o (depth + 1) ++ Field.textOfAll o (depth + 1) fs ++
      lineBreak depth ++ "\x7d)".toList
  | .record value => "z.record(z.string(), ".toList ++ value.textAt o depth ++ [')']
  | .union variants => "z.union([".toList ++ textOfAll o depth variants ++ "])".toList
  | .discriminatedUnion discriminator variants =>
    "z.discriminatedUnion(".toList ++ quoted discriminator ++ ", [".toList ++
      textOfAll o depth variants ++ "])".toList
  | .unsupported reason => "z.any() /* unsupported: ".toList ++ reason.toList ++ " */".toList

def Op.textAt (o : EmitOptions) (depth : Nat) : Op → List Char
  | .int => call "int"
  | .min n => callWith "min" (countText n)
  | .max n => callWith "max" (countText n)
  | .length n => callWith "length" (countText n)
  | .nonempty => call "nonempty"
  | .regex pattern => callWith "regex" ("new RegExp(".toList ++ quoted pattern ++ [')'])
  | .gt n => callWith "gt" n.text
  | .gte n => callWith "gte" n.text
  | .lt n => callWith "lt" n.text
  | .lte n => callWith "lte" n.text
  | .positive => call "positive"
  | .nonnegative => call "nonnegative"
  | .negative => call "negative"
  | .nonpositive => call "nonpositive"
  | .multipleOf n => callWith "multipleOf" n.text
  | .default value => callWith "default" value.compact
  | .array => call "array"
  | .optional => call "optional"
  | .catchall value => callWith "catchall" (value.textAt o depth)
  | .minKeys count message => keyCount ">=" count message
  | .maxKeys count message => keyCount "<=" count message
  | .keyCheck key known =>
    ".superRefine((value, ctx) => \x7b".toList ++
      line (depth + 1) "const known = new Set<string>(" ++ quotedList known ++ ");".toList ++
      line (depth + 1) "for (const key of Object.keys(value)) \x7b" ++
      line (depth + 2) "if (known.has(key)) continue;" ++
      line (depth + 2) "const result = " ++ key.textAt o (depth + 2) ++
        ".safeParse(key);".toList ++
      line (depth + 2) "if (!result.success) \x7b" ++
      line (depth + 3) "ctx.addIssue(\x7b" ++
      line (depth + 4) "code: z.ZodIssueCode.custom," ++
      line (depth + 4) "path: [key]," ++
      line (depth + 4)
        "message: result.error.issues.map((issue) => issue.message).join(\"; \")," ++
      line (depth + 3) "\x7d);" ++
      line (depth + 2) "\x7d" ++
      line (depth + 1) "\x7d" ++
      line depth "\x7d)"

def Field.textAt (o : EmitOptions) (depth : Nat) : Field → List Char
  | ⟨name, schema⟩ =>
    lineBreak depth ++ property name ++ ':' :: ' ' :: (schema.textAt o depth ++ [','])

def textOfAll (o : EmitOptions) (depth : Nat) : List Schema → List Char
  | [] => []
  | [s] => s.textAt o depth
  | s :: ss => s.textAt o depth ++ ',' :: ' ' :: textOfAll o depth ss

def Field.textOfAll (o : EmitOptions) (depth : Nat) : List Field → List Char
  | [] => []
  | f :: fs => f.textAt o depth ++ Field.textOfAll o depth fs

def Op.textOfAll (o : EmitOptions) (depth : Nat) : List Op → List Char
  | [] => []
  | op :: ops => op.textAt o depth ++ Op.textOfAll o depth ops

end

def text (o : EmitOptions) (s : Schema) : List Char :=
  s.textAt o 0

end Schema

namespace Emit

def header (o : EmitOptions) : List Char :=
  "// Generated by normalize-schemagen. Do not edit.\n\nimport \x7b z \x7d from ".toList ++
    Text.quoted o.importPath ++ ";\n".toList

def exportWord (o : EmitOptions) : List Char :=
  if o.isExported then "export ".toList else []

def inferredType (o : EmitOptions) (name : String) : List Char :=
  exportWord o ++ "type ".toList ++ name.toList ++ " = z.infer<typeof ".toList ++
    (o.identifier name).toList ++ ">;\n".toList

def definition (o : EmitOptions) (isCircular : Bool) (d : Definition) : List Char :=
  '\n' :: (exportWord o ++ "const ".toList ++ (o.identifier d.name).toList ++
    (if isCircular || d.schema.containsLazy then ": z.ZodTypeAny".toList else []) ++
    " = ".toList ++ d.schema.text o ++ ";\n".toList ++
    if o.infersTypes then inferredType o d.name else [])

def moduleText (s : Synthesis) (o : EmitOptions) : List Char :=
  header o ++ s.definitions.flatMap (definition o false) ++ s.circular.flatMap (definition o true)

end Emit

end ServiceSchema
