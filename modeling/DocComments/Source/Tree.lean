import DocComments.Source.Comment

/-!
# Source trees

A `SourceTree` holds the elements of a program in pre-order and its comments by where they start.
The comments are gathered twice over: a run is a row of comments that belong to one element in one
way, and a block is a row of lines of a run without a line missing between them.
-/

namespace DocComments

/-- The elements and comments of a program. -/
structure SourceTree where
  elements : List Element
  comments : List Comment

/-- The source tree of a program. -/
def Program.tree (program : Program) : SourceTree :=
  let elements := program.elements
  let kept := program.comments.filter fun comment => !comment.isStarred
  { elements := elements.map (·.1)
    comments := sortByStart (·.raw.span.start) (kept.map (·.placed elements)) }

/-- A row of lines that document one element. -/
structure Block where
  element : Nat
  startLine : Nat
  lines : List String
deriving DecidableEq, Repr

namespace SourceTree

/-- The element with this number. -/
def element? (tree : SourceTree) (index : Nat) : Option Element :=
  tree.elements[index]?

/-- The chain of elements from `index` upwards, cut off after `count` of them. -/
def chain (tree : SourceTree) : (count : Nat) → (index : Option Nat) → List Element
  | 0, _ => []
  | _, none => []
  | count + 1, some index =>
    match tree.element? index with
    | some element => element :: tree.chain count element.parent
    | none => []

/-- The elements around an element, the nearest first. No chain is longer than the tree. -/
def ancestors (tree : SourceTree) (element : Element) : List Element :=
  tree.chain tree.elements.length element.parent

/-- The nearest element of a type, the element itself included. -/
def closest? (tree : SourceTree) (element : Element) (nodeType : String) : Option Element :=
  (element :: tree.ancestors element).find? (·.nodeType == nodeType)

/-- The nearest class declaration around an element. -/
def enclosingClass? (tree : SourceTree) (element : Element) : Option Element :=
  (tree.ancestors element).find? (·.role.isClass)

/-- The rows of comments that belong to one element in one way. -/
def runs (tree : SourceTree) : List (List Comment) :=
  tree.comments.splitBy fun a b => a.element == b.element && a.placement == b.placement

/-- The blocks of a run: rows of lines with no line missing between them. -/
def blocksOfRun (run : List Comment) : List Block :=
  let rows := (run.flatMap Comment.lines).splitBy fun a b => b.number == a.number + 1
  rows.map fun row =>
    { element := (run.head?.map (·.element)).getD 0
      startLine := (row.head?.map (·.number)).getD 0
      lines := row.map (·.text) }

/-- The blocks of the whole source. -/
def blocks (tree : SourceTree) : List Block :=
  tree.runs.flatMap blocksOfRun

end SourceTree

end DocComments
