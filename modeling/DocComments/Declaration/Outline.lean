import DocComments.Declaration.Basic
import DocComments.Failure
import DocComments.Line.Basic

/-!
# Outlines

A block of lines is read as a forest of declarations. The first line of a paragraph may declare
something; the other lines of the paragraph, and paragraphs that open with documentation, belong
to what was declared before. A declaration that is indented deeper than the one before it is its
member, and members of one declaration are indented alike.

A block whose first paragraph declares nothing has no declarations.

* `Cursor` is a place in a block: a line number with the lines from there on.
* `Outline.declaration` and `Outline.members` read from a cursor.
* `Outline.block` reads a whole block.
-/

namespace DocComments

/-- A place in a block: the number of a line, and the lines from there on. -/
structure Cursor where
  position : Nat
  rest : List Line

namespace Cursor

/-- The first line of a block. -/
def ofLines (lines : List Line) : Cursor :=
  ⟨0, lines⟩

/-- The line at the cursor; there is none at the end. -/
def line? (cursor : Cursor) : Option Line :=
  cursor.rest.head?

/-- One line further, also past the end. -/
def next (cursor : Cursor) : Cursor :=
  ⟨cursor.position + 1, cursor.rest.tail⟩

/-- As many lines further. -/
def advance (count : Nat) (cursor : Cursor) : Cursor :=
  ⟨cursor.position + count, cursor.rest.drop count⟩

/-- The next empty line, or the end. -/
def skipParagraph (cursor : Cursor) : Cursor :=
  cursor.advance (cursor.rest.takeWhile fun line => !line.isEmpty).length

/-- The next line that is not empty, or the end. -/
def skipEmpty (cursor : Cursor) : Cursor :=
  cursor.advance (cursor.rest.takeWhile Line.isEmpty).length

/-- The next paragraph that opens with a declaration, or the end. The lines may start within a
paragraph, whose remaining lines are then passed over. -/
def seekHead (within : Bool) (position : Nat) : List Line → Cursor
  | [] => ⟨position, []⟩
  | .empty _ :: rest => seekHead false (position + 1) rest
  | .documentation _ _ :: rest => seekHead true (position + 1) rest
  | .declaration line :: rest =>
    if within then seekHead true (position + 1) rest else ⟨position, .declaration line :: rest⟩

end Cursor

/-- A failure with the place where the reading stopped. -/
structure Outline.Stop where
  failure : Failure
  cursor : Cursor

/-- What was read of a block: the declarations, each with the place after it, the place where the
reading ended, and the failure that ended it. -/
structure Outline where
  declarations : List (Declaration × Nat)
  cursor : Cursor
  failure : Option Failure

namespace Outline

variable (resolve : DeclarationLine → Except Failure Heading) (number : Nat)

/-- Reads the declaration at the cursor, whose line is `head`. The next paragraph that declares
something is its first member if it is indented deeper. -/
def declarationWith (members : (indent : Nat) → Cursor → Except Stop (List Declaration × Cursor))
    (head : DeclarationLine) (cursor : Cursor) : Except Stop (Declaration × Cursor) :=
  match resolve head with
  | .error failure => .error ⟨failure, cursor⟩
  | .ok heading =>
    let origin : Origin := { block := number, line := cursor.position }
    let after := Cursor.seekHead true cursor.next.position cursor.next.rest
    match after.rest with
    | .declaration line :: _ =>
      if head.indent < line.indent then do
        let (members, after) ← members line.indent after
        return (⟨origin, heading, if members.isEmpty then none else some members⟩, after)
      else .ok (⟨origin, heading, none⟩, after)
    | _ => .ok (⟨origin, heading, none⟩, after)

/-- Reads the declarations that are indented by `indent`, from at most so many lines. -/
def membersWithin : (count indent : Nat) → Cursor → Except Stop (List Declaration × Cursor)
  | 0, _, cursor => .ok ([], cursor)
  | count + 1, indent, cursor =>
    match cursor.rest with
    | [] => .ok ([], cursor)
    | .empty _ :: _ => membersWithin count indent cursor.next
    | .documentation own text :: _ =>
      if own < indent then .ok ([], cursor)
      else .error ⟨.strayDocumentation text, cursor⟩
    | .declaration line :: _ =>
      if line.indent < indent then .ok ([], cursor)
      else if line.indent = indent then do
        let (member, after) ← declarationWith resolve number (membersWithin count) line cursor
        let (more, after) ← membersWithin count indent after
        return (member :: more, after)
      else .error ⟨.misaligned line.indent indent line.identifier, cursor⟩

/-- Reads the declaration at the cursor, whose line is `head`, with its members. -/
def declaration (head : DeclarationLine) (cursor : Cursor) : Except Stop (Declaration × Cursor) :=
  declarationWith resolve number (membersWithin resolve number cursor.rest.length) head cursor

/-- Reads the declarations that are indented like the line at the cursor. -/
def members (cursor : Cursor) : Except Stop (List Declaration × Cursor) :=
  match cursor.rest with
  | [] => .ok ([], cursor)
  | line :: _ => membersWithin resolve number (cursor.rest.length + 1) line.indent cursor

/-- Reads declarations one after the other, from at most so many lines. -/
def blockWithin : (count : Nat) → Cursor → Outline
  | 0, cursor => ⟨[], cursor, none⟩
  | count + 1, cursor =>
    match cursor.rest with
    | [] => ⟨[], cursor, none⟩
    | .declaration head :: _ =>
      match declaration resolve number head cursor with
      | .error stop => ⟨[], stop.cursor, some stop.failure⟩
      | .ok (first, after) =>
        let outline := blockWithin count after
        { outline with declarations := (first, after.position) :: outline.declarations }
    | _ :: _ => blockWithin count cursor.next

/-- Reads the block from the cursor on. -/
def block (cursor : Cursor) : Outline :=
  let start := cursor.skipEmpty
  match start.line? with
  | some (.declaration _) => blockWithin resolve number (start.rest.length + 1) start
  | _ => ⟨[], start, none⟩

end Outline

end DocComments
