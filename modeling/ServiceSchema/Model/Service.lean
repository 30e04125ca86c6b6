import ServiceSchema.Model.Entity
import ServiceSchema.Text.PascalCase
/-!
# Service descriptions

The declarations of a service as they are written down: record types, interfaces with their methods,
unions and enumerations; and the worklist of entities that they make up.
-/

namespace ServiceSchema

structure TypeDecl where
  name : String
  fields : List Member
  map : Option MapExtension
  rules : List Rule

structure Method where
  name : String
  params : List Member
  /-- Locations by parameter name, with increasing names. -/
  http : List (String × ParamLocation)

namespace Method

/-- The location of a parameter; the table of the method comes before the parameter's own. -/
def location (m : Method) (param : Member) : Option ParamLocation :=
  m.http.lookup param.name <|> param.location

end Method

structure Interface where
  name : String
  methods : List Method

structure UnionDecl where
  name : String
  variants : List Member
  discriminator : Option String

structure EnumDecl where
  name : String
  values : List String

structure ServiceModel where
  types : List TypeDecl
  interfaces : List Interface
  unions : List UnionDecl
  enums : List EnumDecl

namespace ServiceModel

def empty : ServiceModel :=
  ⟨[], [], [], []⟩

end ServiceModel

/-!
## Naming

Parameter bags have no declared name; a naming gives them one.
-/

structure Naming where
  parameterBag : (interface method : String) → String

namespace Naming

def pascal : Naming :=
  ⟨fun interface method => Text.pascalCase interface ++ Text.pascalCase method ++ "Params"⟩

end Naming

/-!
## Worklists

The entities of a service description: record types, parameter bags, unions and enumerations, each
group in the order of its declarations. A method without parameters has no parameter bag.
-/

def TypeDecl.entity (d : TypeDecl) : Entity :=
  ⟨d.name, .record ⟨d.fields, d.map, d.rules⟩⟩

def Method.members (m : Method) : List Member :=
  m.params.map fun p => { p with location := m.location p }

def Method.entity? (naming : Naming) (interface : String) (m : Method) : Option Entity :=
  if m.params.isEmpty then none
  else
    some ⟨naming.parameterBag interface m.name, .parameterBag ⟨interface, m.name, m.members⟩⟩

def Interface.entities (naming : Naming) (i : Interface) : List Entity :=
  i.methods.filterMap (Method.entity? naming i.name)

def UnionDecl.entity (d : UnionDecl) : Entity :=
  ⟨d.name, .union ⟨d.variants, d.discriminator⟩⟩

def EnumDecl.entity (d : EnumDecl) : Entity :=
  ⟨d.name, .enum d.values⟩

def ServiceModel.entities (m : ServiceModel) (naming : Naming) : List Entity :=
  m.types.map TypeDecl.entity ++ m.interfaces.flatMap (Interface.entities naming) ++
    m.unions.map UnionDecl.entity ++ m.enums.map EnumDecl.entity

end ServiceSchema
