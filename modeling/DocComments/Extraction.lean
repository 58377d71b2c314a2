import DocComments.Declaration.Links
import DocComments.Declaration.Outline

/-!
# Extraction

Every block of comment lines is read as an outline of declarations for the element it documents,
and each declaration is linked into one forest as soon as it is read. The first failure ends the
extraction. `Traced` results also keep a record of the steps on the way, failure or not.
-/

namespace DocComments

/-- A step of an extraction that is worth a note. -/
inductive Event where
  /-- A comment of the other convention was passed over. -/
  | passedOver (line : Nat)
  | parsed (elements comments : Nat)
  | gathered (blocks : Nat)
  | impliedClass (name : String)
  | declared (line count : Nat) (place : Place)
  | documented (line : Nat)
deriving DecidableEq, Repr

/-- The text of a note. -/
def Event.message : Event → String
  | passedOver line => "Skipping JSDoc comment at line " ++ toString line
  | parsed elements comments =>
    "Parsed " ++ toString elements ++ " elements, " ++ toString comments ++ " comments"
  | gathered blocks => "Gathered " ++ toString blocks ++ " comment blocks"
  | impliedClass name => "Synthesized declaration for undocumented class '" ++ name ++ "'"
  | declared line count place =>
    "Block at line " ++ toString line ++ ": " ++ toString count ++ " declaration(s) for " ++
      place.describe
  | documented line => "Block at line " ++ toString line ++ ": documentation only"

/-- A result, or the failure that ended the work, with the notes taken on the way. -/
structure Traced (α : Type) where
  events : List Event
  result : Except Failure α

namespace Traced

variable {α β : Type}

/-- One note. -/
def note (event : Event) : Traced Unit :=
  ⟨[event], .ok ()⟩

/-- A result without notes. -/
def lift (result : Except Failure α) : Traced α :=
  ⟨[], result⟩

/-- Goes on with a result and keeps the notes of both parts. -/
def bind (x : Traced α) (f : α → Traced β) : Traced β :=
  match x.result with
  | .error failure => ⟨x.events, .error failure⟩
  | .ok a => ⟨x.events ++ (f a).events, (f a).result⟩

instance : Monad Traced where
  pure a := ⟨[], .ok a⟩
  bind := bind

end Traced

/-- The line that a text is classified as. -/
def Line.classify (text : String) : Except Failure Line :=
  match Line.classify? text with
  | some line => .ok line
  | none => .error (.unknownLine text)

namespace SourceTree

/-- The notes on a declaration that is about to be linked. -/
def noteDestination : Destination → Traced Unit
  | .belowImplied _ heading => .note (.impliedClass heading.name)
  | _ => pure ()

/-- Links a declaration of the element and notes a class that had to be made up. -/
def linkNoting (tree : SourceTree) (element : Element) (links : Links)
    (declaration : Declaration) : Traced Links := do
  let destination ← .lift (links.destination tree element)
  noteDestination destination
  return links.place declaration element destination

/-- Links declarations of the element one after the other. -/
def linkAll (tree : SourceTree) (element : Element) :
    Links → List Declaration → Traced Links
  | links, [] => pure links
  | links, declaration :: rest => do
    let links ← tree.linkNoting element links declaration
    tree.linkAll element links rest

/-- Reads one block of comment lines into the forest. -/
def extractBlock (tree : SourceTree) (number : Nat) (block : Block) (links : Links) :
    Traced Links := do
  match tree.element? block.element with
  | none => return links
  | some element =>
    let lines ← .lift (block.lines.mapM Line.classify)
    let outline := Outline.block element.heading number (.ofLines lines)
    let links ← tree.linkAll element links (outline.declarations.map (·.1))
    match outline.failure with
    | some failure => .lift (.error failure)
    | none =>
      match outline.declarations.length with
      | 0 => .note (.documented block.startLine)
      | count => .note (.declared block.startLine count element.place)
      return links

/-- Reads numbered blocks of comment lines into the forest, one after the other. -/
def extractBlocks (tree : SourceTree) : Links → List (Block × Nat) → Traced Links
  | links, [] => pure links
  | links, (block, number) :: rest => do
    let links ← tree.extractBlock number block links
    tree.extractBlocks links rest

/-- The declarations of a source. -/
def extract (tree : SourceTree) : Traced (List Declaration) := do
  .note (.gathered tree.blocks.length)
  let links ← tree.extractBlocks {} tree.blocks.zipIdx
  return links.declarations

end SourceTree

/-- The source tree of a program, with a note on each comment that is passed over. -/
def Program.traced (program : Program) : Traced SourceTree where
  events := (program.comments.filter RawComment.isStarred).map fun comment =>
    .passedOver comment.span.startLine
  result := .ok program.tree

/-- The declarations of a program. -/
def Program.extract (program : Program) : Traced (List Declaration) := do
  let tree ← program.traced
  tree.extract

end DocComments
