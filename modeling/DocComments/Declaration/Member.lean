import DocComments.Failure
import DocComments.Line.Basic
import DocComments.Source.Tree

/-!
# Members from single comments

The short way to document a class: one comment for a method, or for a field that a method assigns
to. The whole comment is its specification.
-/

namespace DocComments

/-- A member of a class that one comment specifies. -/
structure Member where
  name : Option String
  spec : String
  /-- The name of the class. -/
  parent : Option String
  /-- The parameters of a method; a field has none to list. -/
  parameters : Option (List (Option String))
deriving DecidableEq, Repr

namespace Comment

/-- The specification in the comment. -/
def spec (comment : Comment) : Except Failure String :=
  match memberSpec? comment.raw.value with
  | some spec => .ok spec
  | none => .error (.noMemberSpec comment.raw.value)

/-- The method that the comment specifies, if it stands at one. -/
def method? (tree : SourceTree) (comment : Comment) : Except Failure (Option Member) :=
  match (tree.element? comment.element).bind (tree.closest? · "MethodDefinition") with
  | none => .ok none
  | some method =>
    match tree.enclosingClass? method with
    | none => .error .methodOutsideClass
    | some class_ => do
      let spec ← comment.spec
      return some
        { name := method.role.name?
          spec
          parent := class_.role.name?
          parameters := some (method.role.formals.map (·.name)) }

/-- The class around an assignment to a field within a method. -/
def assignmentClass? (tree : SourceTree) (statement : Element) : Option Element :=
  if statement.role.isAssignment && (tree.closest? statement "MethodDefinition").isSome then
    tree.enclosingClass? statement
  else none

/-- The field that the comment specifies, if it stands at an assignment to one. -/
def field? (tree : SourceTree) (comment : Comment) : Except Failure (Option Member) :=
  match (tree.element? comment.element).bind (tree.closest? · "ExpressionStatement") with
  | none => .ok none
  | some statement =>
    match assignmentClass? tree statement with
    | none => .ok none
    | some class_ => do
      let spec ← comment.spec
      return some
        { name := statement.role.name?
          spec
          parent := class_.role.name?
          parameters := none }

end Comment

end DocComments
