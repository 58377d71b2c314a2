import DocComments.Declaration.Basic
import DocComments.Failure
import DocComments.Line.Basic
import DocComments.Source.Element

/-!
# Headings

What a declaration line says of the element it documents. A name or type that the line leaves out
comes from the element; the parameters of a method lend their names to a function type that leaves
them out.
-/

namespace DocComments

/-- A text that is there and not empty. -/
def nonempty? (text : Option String) : Option String :=
  text.filter (!·.isEmpty)

namespace Element

/-- The name that the element itself gives to a declaration. -/
def ownName (element : Element) : Except Failure String :=
  let named (name : Option String) : Except Failure String :=
    match nonempty? name with
    | some name => .ok name
    | none => .error (.noName element.place)
  match element.role with
  | .variables [name] => named name
  | .variables _ => .error (.severalVariables element.place)
  | role => named role.name?

/-- The name of a declaration: the one it gives, or that of the element. -/
def resolveName (identifier : Option String) (element : Element) : Except Failure String :=
  match nonempty? identifier with
  | some name => .ok name
  | none => element.ownName

/-- The type that the element itself gives to a declaration. -/
def ownType (element : Element) : Except Failure TypeExpr :=
  match element.role with
  | .classDeclaration _ => .ok (.classType none)
  | .function _ _ => .ok (.function [] none)
  | .variables _ => .ok .anyType
  | _ => .error (.noType element.place)

/-- The type of a declaration: the one it specifies, or that of the element. -/
def resolveType (spec : String) (element : Element) : Except Failure TypeExpr :=
  if spec.isEmpty then element.ownType
  else if spec = "interface" then .ok .interfaceType
  else (TypeExpr.parse spec).mapError .badSpec

/-- The parameters named after those of a method, up to the first that finds no name: all of them,
or those as far as they were named and the formal at fault. An empty name counts as none. -/
def fillParameters :
    List Formal → List (Parameter TypeExpr) → List (Parameter TypeExpr) × Option Formal
  | _, [] => ([], none)
  | [], parameters => (parameters, none)
  | formal :: formals, parameter :: parameters =>
    match nonempty? parameter.name, formal.name with
    | none, none => (parameter :: parameters, some formal)
    | none, some name =>
      let (rest, fault) := fillParameters formals parameters
      ({ parameter with name := some name } :: rest, fault)
    | some _, _ =>
      let (rest, fault) := fillParameters formals parameters
      (parameter :: rest, fault)

/-- The type with the parameter names of a method filled in, and what stopped the filling. -/
def fillNames (element : Element) (type : TypeExpr) : TypeExpr × Option Failure :=
  match element.role, type with
  | .method name formals, .function parameters result =>
    let (parameters, fault) := fillParameters formals parameters
    (.function parameters result,
      fault.map fun formal => .namelessParameter formal.nodeType name element.span.startLine)
  | _, _ => (type, none)

/-- The heading that a declaration line gives to the element. -/
def heading (element : Element) (line : DeclarationLine) : Except Failure Heading := do
  let name ← element.resolveName line.identifier
  let type ← element.resolveType line.spec
  match element.fillNames type with
  | (type, none) => return { name, spec := nonempty? (some line.spec), type }
  | (_, some failure) => throw failure

end Element

end DocComments
