import DocComments.Source.Node

/-!
# Elements

The nodes of a program in pre-order, numbered from zero. An element knows its parent and its
children by number, and what role its node plays for documentation.

A node is first given a `Shape`: its role, and its children by where they start. The elements are
the shapes in pre-order.
-/

namespace DocComments

/-- A parameter of a function or method in the source; only plain ones have a name. -/
structure Formal where
  nodeType : String
  name : Option String
deriving DecidableEq, Repr

/-- What an element can be documented as. -/
inductive Role where
  | program
  | classDeclaration (name : Option String)
  | function (name : Option String) (formals : List Formal)
  | method (name : Option String) (formals : List Formal)
  /-- A variable declaration, by the names it declares. -/
  | variables (names : List (Option String))
  /-- An assignment to a field of `this`. -/
  | assignment (field : Option String)
  | other
deriving DecidableEq, Repr

namespace Role

/-- The name that the element bears. -/
def name? : Role → Option String
  | classDeclaration name | function name _ | method name _ | assignment name => name
  | _ => none

/-- The parameters of a function or method. -/
def formals : Role → List Formal
  | function _ formals | method _ formals => formals
  | _ => []

/-- Is it a class declaration? -/
def isClass : Role → Bool
  | classDeclaration _ => true
  | _ => false

/-- Is it a method? -/
def isMethod : Role → Bool
  | method _ _ => true
  | _ => false

/-- Is it an assignment to a field? -/
def isAssignment : Role → Bool
  | assignment _ => true
  | _ => false

end Role

namespace Node

variable {α : Type}

/-- The parameter that a node describes. -/
def formal (node : Node α) : Formal where
  nodeType := node.data.type.getD ""
  name :=
    if node.hasType "AssignmentPattern" then (node.child? "left").bind identifier?
    else node.identifier?

/-- The field that an expression assigns to, if it is a plain field of `this`. -/
def thisField? (expression : Node α) : Option String := do
  guard (expression.hasType "AssignmentExpression")
  let target ← expression.child? "left"
  guard (target.hasType "MemberExpression" && !target.data.computed)
  let object ← target.child? "object"
  guard (object.hasType "ThisExpression")
  let name ← (target.child? "property").bind identifier?
  guard (!name.isEmpty)
  return name

/-- The role that a node plays. -/
def role (node : Node α) : Role :=
  match node.data.type with
  | some "Program" => .program
  | some "ClassDeclaration" => .classDeclaration ((node.child? "id").bind identifier?)
  | some "FunctionDeclaration" =>
    .function ((node.child? "id").bind identifier?) ((node.items "params").map formal)
  | some "MethodDefinition" =>
    let parameters := ((node.child? "value").map (·.items "params")).getD []
    .method ((node.child? "key").bind keyName?) (parameters.map formal)
  | some "VariableDeclaration" =>
    .variables ((node.items "declarations").map fun d => (d.child? "id").bind identifier?)
  | some "ExpressionStatement" =>
    match (node.child? "expression").bind thisField? with
    | some field => .assignment (some field)
    | none => .other
  | _ => .other

/-- Does the node export something? -/
def isExport (type : Option String) : Bool :=
  type == some "ExportNamedDeclaration" || type == some "ExportDefaultDeclaration"

/-- Does an export statement hand its comments on to a node of this type? -/
def isExportable (type : Option String) : Bool :=
  type == some "ClassDeclaration" || type == some "FunctionDeclaration" ||
    type == some "VariableDeclaration"

end Node

/-- A node as an element: its role, its comments, and its children by where they start. -/
structure Shape where
  nodeType : String
  role : Role
  span : Span
  attached : Attached
  /-- Is it the declaration that its parent exports? -/
  exported : Bool
  children : List Shape

mutual

/-- The shape of a node, which its parent may export. -/
def Node.shape (exported : Bool) : Node Attached → Shape
  | ⟨data, note, fields⟩ =>
    { nodeType := data.type.getD ""
      role := Node.role ⟨data, note, fields⟩
      span := data.span
      attached := note
      exported := exported && Node.isExportable data.type
      children :=
        sortByStart (·.span.start) (Node.shapesOfFields (Node.isExport data.type) fields) }

/-- The shapes of the nodes in the fields of an export statement or another node. -/
def Node.shapesOfFields (exports : Bool) : List (String × Slot (Node Attached)) → List Shape
  | [] => []
  | field :: rest => Node.shapesOfField exports field ++ Node.shapesOfFields exports rest

/-- The shapes of the nodes in one field. -/
def Node.shapesOfField (exports : Bool) : String × Slot (Node Attached) → List Shape
  | (label, slot) => Node.shapesOfSlot (exports && label == "declaration") slot

/-- The shapes of the nodes that a field holds; only one that stands alone can be exported. -/
def Node.shapesOfSlot (exported : Bool) : Slot (Node Attached) → List Shape
  | .one node => if node.data.type.isSome then [Node.shape exported node] else []
  | .many nodes => Node.shapesOfList nodes

/-- The shapes of the nodes in a list. -/
def Node.shapesOfList : List (Node Attached) → List Shape
  | [] => []
  | node :: rest =>
    if node.data.type.isSome then Node.shape false node :: Node.shapesOfList rest
    else Node.shapesOfList rest

end

/-- A numbered node. -/
structure Element where
  index : Nat
  nodeType : String
  role : Role
  span : Span
  parent : Option Nat
  children : List Nat
  /-- The declaration that an export statement hands its comments on to. -/
  exported : Option Nat
deriving DecidableEq, Repr

/-- The element as messages name it. -/
def Element.place (element : Element) : Place :=
  ⟨element.nodeType, element.span.startLine⟩

namespace Shape

mutual

/-- The number of elements of a shape. -/
def size : Shape → Nat
  | ⟨_, _, _, _, _, children⟩ => sizes children + 1

/-- The number of elements of a list of shapes. -/
def sizes : List Shape → Nat
  | [] => 0
  | shape :: rest => shape.size + sizes rest

end

/-- The numbers of shapes that stand side by side, the first of them given. -/
def indices (first : Nat) : List Shape → List Nat
  | [] => []
  | shape :: rest => first :: indices (first + shape.size) rest

/-- The number of the shape that its parent exports. -/
def exportedIndex? (first : Nat) : List Shape → Option Nat
  | [] => none
  | shape :: rest => if shape.exported then some first else exportedIndex? (first + shape.size) rest

mutual

/-- The elements of a shape in pre-order, each with its comments. -/
def elements (parent : Option Nat) (index : Nat) : Shape → List (Element × Attached)
  | ⟨nodeType, role, span, attached, _, children⟩ =>
    ({ index, nodeType, role, span, parent
       children := indices (index + 1) children
       exported := exportedIndex? (index + 1) children }, attached) ::
      elementsOfList index (index + 1) children

/-- The elements of shapes that stand side by side below `parent`. -/
def elementsOfList (parent index : Nat) : List Shape → List (Element × Attached)
  | [] => []
  | shape :: rest =>
    elements (some parent) index shape ++ elementsOfList parent (index + shape.size) rest

end

end Shape

/-- The elements of a program in pre-order, each with the comments attached to it. -/
def Program.elements (program : Program) : List (Element × Attached) :=
  (program.root.shape false).elements none 0

end DocComments
