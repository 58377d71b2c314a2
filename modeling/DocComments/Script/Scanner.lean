import DocComments.Script.Chars
import DocComments.Script.Problem
import DocComments.Source.Node

/-!
# Scanning scripts

A `Scanner` is a place in a script. Between tokens it passes over blanks and comments, which it
hands back. A comment runs from `//` to the end of the line or from `/*` to `*/`. At the start of a
line `-->` opens a comment too, and in scripts that are no modules `<!--` does anywhere.
-/

namespace DocComments.Script

/-- A place in a script: the characters from there on, how many came before, the line and the
offset where the line starts, and the braces that are open, those in templates marked. -/
structure Scanner where
  rest : List Char
  index : Nat
  line : Nat
  lineStart : Nat
  braces : List Bool

namespace Scanner

/-- The start of a text. An empty text has no lines. -/
def ofText (text : String) : Scanner :=
  { rest := text.toList, index := 0, line := if text.isEmpty then 0 else 1, lineStart := 0
    braces := [] }

/-- So many characters further, on the same line. -/
def advance (count : Nat) (s : Scanner) : Scanner :=
  { s with rest := s.rest.drop count, index := s.index + count }

/-- The start of a new line. -/
def startLine (s : Scanner) : Scanner :=
  { s with line := s.line + 1, lineStart := s.index }

/-- Behind the line break that comes next; a carriage return takes a line feed with it. -/
def passBreak (s : Scanner) : Scanner :=
  match s.rest with
  | '\r' :: '\n' :: _ => (s.advance 2).startLine
  | _ => (s.advance 1).startLine

/-- Behind a text that comes next, which may have several lines. -/
def passText : List Char → Scanner → Scanner
  | [], s => s
  | '\r' :: '\n' :: rest, s => passText rest (s.advance 2).startLine
  | c :: rest, s =>
    passText rest (if isLineBreak c then (s.advance 1).startLine else s.advance 1)

/-- The fault of a problem on the line of the scanner. -/
def fault (problem : Problem) (s : Scanner) : Fault :=
  ⟨s.line, problem⟩

/-- Does the rest start with this text? -/
def startsWith (text : String) (s : Scanner) : Bool :=
  text.toList.isPrefixOf s.rest

/-- The comment to the end of the line, whose marker of `width` characters is already passed. -/
def lineComment (width : Nat) (s : Scanner) : RawComment × Scanner :=
  let text := s.rest.takeWhile fun c => !isLineBreak c
  let after := s.advance text.length
  ({ block := false
     value := String.ofList text
     span := { start := s.index - width, stop := after.index, startLine := s.line
               stopLine := s.line } },
    if after.rest.isEmpty then after else after.passBreak)

/-- The number of characters before the end of a block comment. -/
def blockLength? : List Char → Option Nat
  | [] => none
  | '*' :: '/' :: _ => some 0
  | _ :: rest => (blockLength? rest).map (· + 1)

/-- The block comment whose marker is already passed, and whether it ends before the script. -/
def blockComment (s : Scanner) : RawComment × Scanner × Bool :=
  let length? := blockLength? s.rest
  let text := s.rest.take (length?.getD s.rest.length)
  let inner := passText text s
  let after := if length?.isSome then inner.advance 2 else inner
  ({ block := true
     value := String.ofList text
     span := { start := s.index - 2, stop := after.index, startLine := s.line
               stopLine := after.line } },
    after, length?.isSome)

/-- What comes before the next token: a blank, a line break, or a comment with a marker of some
width. -/
inductive Trivia where
  | space
  | lineBreak
  | lineComment (width : Nat)
  | blockComment

/-- What comes next if it is no token; `atStart` tells that nothing but blanks and comments came
before it on its line. -/
def trivia? (isModule atStart : Bool) (s : Scanner) : Option Trivia :=
  match s.rest with
  | [] => none
  | c :: _ =>
    if isSpace c then some .space
    else if isLineBreak c then some .lineBreak
    else if s.startsWith "//" then some (.lineComment 2)
    else if s.startsWith "/*" then some .blockComment
    else if atStart && s.startsWith "-->" then some (.lineComment 3)
    else if !isModule && s.startsWith "<!--" then some (.lineComment 4)
    else none

/-- Passes over everything before the next token, in at most so many steps. A block comment that
does not end is a fault unless faults are tolerated. -/
def skipWithin (isModule tolerant : Bool) :
    (count : Nat) → (atStart : Bool) → Scanner → Except Fault (List RawComment × Scanner)
  | 0, _, s => .ok ([], s)
  | count + 1, atStart, s =>
    match s.trivia? isModule atStart with
    | none => .ok ([], s)
    | some .space => skipWithin isModule tolerant count atStart (s.advance 1)
    | some .lineBreak => skipWithin isModule tolerant count true s.passBreak
    | some (.lineComment width) => do
      let (comment, after) := (s.advance width).lineComment width
      let (more, after) ← skipWithin isModule tolerant count (atStart || width == 2) after
      return (comment :: more, after)
    | some .blockComment => do
      let (comment, after, closed) := (s.advance 2).blockComment
      if !closed && !tolerant then throw (after.fault .illegal)
      let (more, after) ← skipWithin isModule tolerant count atStart after
      return (comment :: more, after)

/-- Passes over everything before the next token, and gives the comments among it. -/
def skipTrivia (isModule tolerant : Bool) (s : Scanner) :
    Except Fault (List RawComment × Scanner) :=
  skipWithin isModule tolerant (s.rest.length + 1) (s.index == 0) s

end Scanner

end DocComments.Script
