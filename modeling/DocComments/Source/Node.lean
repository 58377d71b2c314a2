import DocComments.Source.Span

/-!
# Syntax nodes

A program is a tree of nodes. A node has a type, the part of the source it covers, a few plain
values, and labelled fields that hold one node or several. An object without a type is no node of
the tree, but its fields can still be asked for.
-/

namespace DocComments

/-- The plain values of a node. -/
structure NodeData where
  type : Option String := none
  span : Span := {}
  /-- The spelling of an identifier. -/
  name : Option String := none
  /-- The value of a string literal. -/
  text : Option String := none
  /-- Is the member of a member expression computed? -/
  computed : Bool := false
deriving DecidableEq, Repr

/-- What a field holds. -/
inductive Slot (β : Type) where
  | one (item : β)
  | many (items : List β)

/-- A node with a note of type `α`, and its fields in order. -/
structure Node (α : Type) where
  data : NodeData
  note : α
  fields : List (String × Slot (Node α))

namespace Node

variable {α : Type}

/-- Is the node of this type? -/
def hasType (type : String) (node : Node α) : Bool :=
  node.data.type == some type

/-- What the field with this label holds. -/
def slot? (label : String) (node : Node α) : Option (Slot (Node α)) :=
  node.fields.lookup label

/-- The node that the field holds alone. -/
def child? (label : String) (node : Node α) : Option (Node α) :=
  match node.slot? label with
  | some (.one child) => some child
  | _ => none

/-- The nodes that the field holds as a list. -/
def items (label : String) (node : Node α) : List (Node α) :=
  match node.slot? label with
  | some (.many items) => items
  | _ => []

/-- The name of an identifier. -/
def identifier? (node : Node α) : Option String :=
  if node.hasType "Identifier" then node.data.name else none

/-- The name that a property key spells out: an identifier or a string. -/
def keyName? (node : Node α) : Option String :=
  if node.hasType "Identifier" then node.data.name
  else if node.hasType "Literal" then node.data.text
  else none

end Node

/-- The start offsets of the comments that are attached to a node. -/
structure Attached where
  leading : List Nat := []
  trailing : List Nat := []
  inner : List Nat := []
deriving DecidableEq, Repr

/-- A comment as it stands in the source. -/
structure RawComment where
  block : Bool
  value : String
  span : Span
deriving DecidableEq, Repr

/-- A program: its root node and all its comments. -/
structure Program where
  root : Node Attached
  comments : List RawComment

end DocComments
