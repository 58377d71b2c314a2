import DocComments.Declaration.Basic
import DocComments.Json.Basic

/-!
# Declarations as JSON

A type is an object with its kind first. Fields that are absent or false are left out; a list that
is there is written even if it is empty. The members of a declaration are its properties, written
if there are any.
-/

namespace DocComments

/-- The field of a flag that is set. -/
def flagField (name : String) (flag : Bool) : List (String × Json) :=
  if flag then [(name, .bool true)] else []

/-- The field of a text that is there. -/
def textField (name : String) : Option String → List (String × Json)
  | some text => [(name, .text text)]
  | none => []

/-- The object of a kind. -/
def kindObject (kind : String) (fields : List (String × Json)) : Json :=
  .object (("kind", .text kind) :: fields)

/-- The value of a literal type. -/
def Literal.json : Literal → Json
  | text value => .text value
  | int value => .int value
  | double value => .double value

namespace TypeExpr

/-- The name of the kind of a type. -/
def kind : TypeExpr → String
  | named _ | generic _ _ => "Name"
  | nullable _ => "Nullable"
  | array _ => "Array"
  | object _ => "Object"
  | function _ _ => "Function"
  | union _ => "Union"
  | literal _ => "Literal"
  | classType _ => "Class"
  | interfaceType => "Interface"
  | anyType => "Any"

mutual

/-- A type as JSON. -/
def json : TypeExpr → Json
  | named name => kindObject "Name" [("name", .text name)]
  | generic name arguments =>
    kindObject "Name" [("name", .text name), ("typeArguments", .array (jsonList arguments))]
  | nullable type => kindObject "Nullable" [("type", json type)]
  | array type => kindObject "Array" [("type", json type)]
  | object fields => kindObject "Object" [("fields", .array (jsonFields fields))]
  | function parameters result =>
    kindObject "Function"
      (("parameters", .array (jsonParameters parameters)) :: jsonResult result)
  | union types => kindObject "Union" [("types", .array (jsonList types))]
  | literal value => kindObject "Literal" [("value", value.json)]
  | classType parameters => kindObject "Class" (jsonConstructor parameters)
  | interfaceType => kindObject "Interface" []
  | anyType => kindObject "Any" []

/-- Types as JSON. -/
def jsonList : List TypeExpr → List Json
  | [] => []
  | type :: types => json type :: jsonList types

/-- The fields of an object type as JSON. -/
def jsonFields : List (Field TypeExpr) → List Json
  | [] => []
  | field :: fields => jsonField field :: jsonFields fields

/-- A field of an object type as JSON. -/
def jsonField : Field TypeExpr → Json
  | ⟨name, type, optional⟩ =>
    kindObject "ObjectField"
      ([("name", .text name), ("type", json type)] ++ flagField "optional" optional)

/-- The parameters of a function type as JSON. -/
def jsonParameters : List (Parameter TypeExpr) → List Json
  | [] => []
  | parameter :: parameters => jsonParameter parameter :: jsonParameters parameters

/-- A parameter of a function type as JSON. -/
def jsonParameter : Parameter TypeExpr → Json
  | ⟨type, name, optional, rest⟩ =>
    kindObject "FunctionParameter"
      ([("type", json type)] ++ textField "name" name ++ flagField "optional" optional ++
        flagField "rest" rest)

/-- The field of a result type that is there. -/
def jsonResult : Option TypeExpr → List (String × Json)
  | none => []
  | some type => [("returnType", json type)]

/-- The field of the parameters of a constructor that is documented. -/
def jsonConstructor : Option (List (Parameter TypeExpr)) → List (String × Json)
  | none => []
  | some parameters => [("constructorParameters", .array (jsonParameters parameters))]

end

end TypeExpr

namespace Declaration

mutual

/-- A declaration as JSON. -/
def json : Declaration → Json
  | ⟨_, heading, members⟩ =>
    .object ([("name", .text heading.name)] ++ textField "typeSpec" heading.spec ++
      [("type", heading.type.json)] ++ jsonMembers members)

/-- The field of the members, if there are any. -/
def jsonMembers : Option (List Declaration) → List (String × Json)
  | none | some [] => []
  | some (member :: members) => [("properties", .array (json member :: jsonList members))]

/-- Declarations as JSON. -/
def jsonList : List Declaration → List Json
  | [] => []
  | declaration :: declarations => json declaration :: jsonList declarations

end

/-- The JSON text of a list of declarations. -/
def jsonText (declarations : List Declaration) : String :=
  (Json.array (jsonList declarations)).render

end Declaration

end DocComments
