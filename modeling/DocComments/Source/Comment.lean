import DocComments.Source.Element
import DocComments.Text.Lines

/-!
# Comments and their elements

Each comment belongs to one element, and stands before it, after it or inside it. Comments that
open with a second star follow another convention and are passed over.

A comment attached to several elements belongs to the first that applies:

* the element it trails, if that ends on the line where the comment starts;
* the element it leads;
* the element it trails;
* the empty block it stands in.

The last such element in pre-order counts. A comment attached to none belongs to the innermost
element around it. An export statement hands its comments on to the declaration it exports.
-/

namespace DocComments

/-- How a comment stands to its element. -/
inductive Placement where
  | leading | trailing | dangling
deriving DecidableEq, Repr

/-- A comment with the element it belongs to. -/
structure Comment where
  raw : RawComment
  element : Nat
  placement : Placement
deriving DecidableEq, Repr

/-- The comments of a node with the given placement. -/
def Attached.standing (attached : Attached) : Placement → List Nat
  | .leading => attached.leading
  | .trailing => attached.trailing
  | .dangling => attached.inner

namespace RawComment

/-- Does the comment follow the convention of two stars? -/
def isStarred (comment : RawComment) : Bool :=
  comment.block && comment.value.toList.head? == some '*'

/-- The last element that the comment is attached to with this placement. -/
def attachedTo? (elements : List (Element × Attached)) (comment : RawComment)
    (placement : Placement) : Option Element :=
  (elements.reverse.find? fun (_, attached) =>
    (attached.standing placement).contains comment.span.start).map (·.1)

/-- Does the element cover the comment? -/
def isWithin (comment : RawComment) (element : Element) : Bool :=
  element.span.start ≤ comment.span.start && comment.span.stop ≤ element.span.stop

/-- The innermost element around the comment: the last in pre-order, or the root. -/
def innermost? (elements : List (Element × Attached)) (comment : RawComment) : Option Element :=
  ((elements.reverse.find? fun (element, _) => comment.isWithin element).orElse
    fun _ => elements.head?).map (·.1)

/-- The element that the comment is attached to, before exports are seen through. -/
def target? (elements : List (Element × Attached)) (comment : RawComment) :
    Option (Element × Placement) :=
  let on := comment.attachedTo? elements
  match (on .trailing).filter (·.span.stopLine = comment.span.startLine) with
  | some element => some (element, .trailing)
  | none =>
    match [Placement.leading, .trailing, .dangling].findSome? fun p => (on p).map (·, p) with
    | some target => some target
    | none => (comment.innermost? elements).map (·, .dangling)

/-- The comment with the element it belongs to. -/
def placed (elements : List (Element × Attached)) (comment : RawComment) : Comment :=
  match comment.target? elements with
  | some (element, placement) =>
    { raw := comment, element := element.exported.getD element.index, placement }
  | none => { raw := comment, element := 0, placement := .dangling }

end RawComment

/-- A physical line of a comment. -/
structure CommentLine where
  number : Nat
  text : String
deriving DecidableEq, Repr

/-- The physical lines of a comment, numbered from the line it starts on. -/
def Comment.lines (comment : Comment) : List CommentLine :=
  (Text.lines comment.raw.value).mapIdx fun i text => ⟨comment.raw.span.startLine + i, text⟩

end DocComments
