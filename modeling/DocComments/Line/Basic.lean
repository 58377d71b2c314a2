import DocComments.Text.Blank

/-!
# Comment lines

A line of a comment declares something, documents what was declared, or is empty.

* A declaration is an optional name, a separator (`:`, `::`, `:-` or `::-`) and a type
  specification, which may be empty.
* Documentation is any other text that is indented.
* An empty line holds blanks only.

Text that is not indented and declares nothing is no line at all.
-/

namespace DocComments

/-- A line that declares something. -/
structure DeclarationLine where
  indent : Nat
  identifier : Option String
  spec : String
deriving DecidableEq, Repr

/-- A classified comment line. -/
inductive Line where
  | declaration (line : DeclarationLine)
  | documentation (indent : Nat) (text : String)
  | empty (indent : Nat)
deriving DecidableEq, Repr

namespace Line

/-- The number of blanks before the line's text. -/
def indent : Line → Nat
  | declaration line => line.indent
  | documentation indent _ => indent
  | empty indent => indent

/-- Is the line empty? -/
def isEmpty : Line → Bool
  | empty _ => true
  | _ => false

/-- Can the character stand in the name of a declaration? -/
def isIdentifierChar (c : Char) : Bool :=
  c.isAlpha || c == '.' || c == '_'

/-- Drops one character if the text begins with it. -/
def dropOne (c : Char) : List Char → List Char
  | [] => []
  | d :: rest => if d = c then rest else d :: rest

/-- What follows a separator, whose first colon is already read. -/
def afterSeparator (text : List Char) : List Char :=
  (dropOne '-' (dropOne ':' text)).dropWhile (· == ' ')

/-- The text as one line: it may end with a line feed, and holds no other. -/
def single? (text : List Char) : Option (List Char) :=
  match text.dropWhile (· ≠ '\n') with
  | [] | ['\n'] => some (text.takeWhile (· ≠ '\n'))
  | _ => none

/-- Reads a declaration behind its indentation. -/
def declaration? (indent : Nat) (text : List Char) : Option DeclarationLine :=
  match text.dropWhile isIdentifierChar with
  | ':' :: rest =>
    let name := text.takeWhile isIdentifierChar
    (single? (afterSeparator rest)).map fun spec =>
      { indent
        identifier := if name.isEmpty then none else some (String.ofList name)
        spec := String.ofList spec }
  | _ => none

/-- Classifies the text of a line, behind its indentation. -/
def ofBody? (indent : Nat) (text : List Char) : Option Line :=
  match declaration? indent text with
  | some line => some (.declaration line)
  | none =>
    if text.isEmpty then some (.empty indent)
    else if indent = 0 then none
    else (single? text).map fun body => .documentation indent (String.ofList body)

/-- Classifies a line; `none` if it is of no kind. -/
def classify? (text : String) : Option Line :=
  let chars := text.toList
  ofBody? (chars.takeWhile Text.isBlank).length (chars.dropWhile Text.isBlank)

end Line

/-- The specification in a comment that documents one member: the text behind a separator at its
start, or all of it if there is none. A text of several lines has no specification. -/
def memberSpec? (text : String) : Option String :=
  if '\n' ∈ text.toList then none
  else match text.toList.dropWhile (· == ' ') with
    | ':' :: rest => some (String.ofList (Line.afterSeparator rest))
    | _ => some text

end DocComments
