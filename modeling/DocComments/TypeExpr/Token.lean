import DocComments.Text.Blank
import DocComments.Text.Word

/-!
# Tokens of type specifications

A type specification is read as a list of tokens. Blanks separate tokens and are dropped. Each
token remembers the code point it starts at.
-/

namespace DocComments.TypeExpr

/-- The signs of the type language. -/
inductive Symbol where
  | arrow | asciiArrow | ellipsis | question | openParen | closeParen | openBracket | closeBracket
  | openBrace | closeBrace | openAngle | closeAngle | comma | colon | bar
deriving DecidableEq, Repr

/-- How a sign is written. -/
def Symbol.text : Symbol → String
  | arrow => "→"
  | asciiArrow => "->"
  | ellipsis => "..."
  | question => "?"
  | openParen => "("
  | closeParen => ")"
  | openBracket => "["
  | closeBracket => "]"
  | openBrace => "\x7b"
  | closeBrace => "\x7d"
  | openAngle => "<"
  | closeAngle => ">"
  | comma => ","
  | colon => ":"
  | bar => "|"

/-- What a token is. A quoted lexeme keeps its quotes. -/
inductive Lexeme where
  | symbol (sign : Symbol)
  | quoted (text : String)
  | number (text : String)
  | name (text : String)
deriving DecidableEq, Repr

/-- The characters of a lexeme as they stand in the specification. -/
def Lexeme.text : Lexeme → String
  | symbol sign => sign.text
  | quoted text | number text | name text => text

/-- A lexeme with the position of its first code point. -/
structure Token where
  lexeme : Lexeme
  position : Nat
deriving DecidableEq, Repr

namespace Token

/-- The sign that a text begins with. -/
def symbolAt : List Char → Option Symbol
  | '→' :: _ => some .arrow
  | '-' :: '>' :: _ => some .asciiArrow
  | '.' :: '.' :: '.' :: _ => some .ellipsis
  | '?' :: _ => some .question
  | '(' :: _ => some .openParen
  | ')' :: _ => some .closeParen
  | '[' :: _ => some .openBracket
  | ']' :: _ => some .closeBracket
  | '\x7b' :: _ => some .openBrace
  | '\x7d' :: _ => some .closeBrace
  | '<' :: _ => some .openAngle
  | '>' :: _ => some .closeAngle
  | ',' :: _ => some .comma
  | ':' :: _ => some .colon
  | '|' :: _ => some .bar
  | _ => none

/-- The number of characters up to and including the closing quote. A backslash takes the next
character with it, which must not be a line feed. -/
def closingQuote (quote : Char) : List Char → Option Nat
  | [] => none
  | '\\' :: [] => none
  | '\\' :: c :: rest => if c = '\n' then none else (closingQuote quote rest).map (· + 2)
  | c :: rest => if c = quote then some 1 else (closingQuote quote rest).map (· + 1)

/-- The length of the quoted text at the start, quotes included. -/
def quotedLength : List Char → Option Nat
  | [] => none
  | c :: rest =>
    if c = '\x22' ∨ c = '\x27' then (closingQuote c rest).map (· + 1) else none

/-- The length of the run of decimal digits at the start. -/
def digitsLength (text : List Char) : Nat :=
  (text.takeWhile Text.isDigit).length

/-- The length of a decimal point with digits after it at the start; zero if there is none. -/
def fractionLength : List Char → Nat
  | '.' :: rest => if digitsLength rest = 0 then 0 else digitsLength rest + 1
  | _ => 0

/-- The length of the unsigned number at the start. -/
def unsignedLength (text : List Char) : Option Nat :=
  let whole := digitsLength text
  if whole = 0 then none else some (whole + fractionLength (text.drop whole))

/-- The length of the number at the start, a minus sign included. -/
def numberLength : List Char → Option Nat
  | '-' :: rest => (unsignedLength rest).map (· + 1)
  | text => unsignedLength text

/-- Can the character begin a name or a part of a dotted name? -/
def isNameStart (c : Char) : Bool :=
  c.isAlpha || c == '_' || c == '$'

/-- Can the character continue a part of a name? -/
def isNameChar (c : Char) : Bool :=
  Text.isWordChar c || c == '$'

/-- How far a name goes on: more of its last part, or a dot and a further part. -/
def nameTail : List Char → Nat
  | [] => 0
  | '.' :: c :: rest => if isNameStart c then nameTail rest + 2 else 0
  | c :: rest => if isNameChar c then nameTail rest + 1 else 0

/-- The length of the name at the start. -/
def nameLength : List Char → Option Nat
  | [] => none
  | c :: rest => if isNameStart c then some (nameTail rest + 1) else none

/-- The lexeme at the start of a text that does not begin with a blank. -/
def lexemeAt (text : List Char) : Option Lexeme :=
  match symbolAt text with
  | some sign => some (.symbol sign)
  | none =>
  match quotedLength text with
  | some n => some (.quoted (String.ofList (text.take n)))
  | none =>
  match numberLength text with
  | some n => some (.number (String.ofList (text.take n)))
  | none =>
  match nameLength text with
  | some n => some (.name (String.ofList (text.take n)))
  | none => none

/-- A character at which no lexeme starts. -/
structure Stray where
  char : Char
  position : Nat
deriving DecidableEq, Repr

/-- The tokens of a text that starts at `position`, after `skip` characters that an earlier token
has taken. -/
def scan : (skip position : Nat) → List Char → Except Stray (List Token)
  | _, _, [] => .ok []
  | skip + 1, position, _ :: rest => scan skip (position + 1) rest
  | 0, position, c :: rest =>
    if Text.isBlank c then scan 0 (position + 1) rest
    else match lexemeAt (c :: rest) with
      | none => .error ⟨c, position⟩
      | some lexeme =>
        (scan (lexeme.text.length - 1) (position + 1) rest).map (⟨lexeme, position⟩ :: ·)

end Token

/-- The tokens of a type specification. -/
def tokens (text : String) : Except Token.Stray (List Token) :=
  Token.scan 0 0 text.toList

end DocComments.TypeExpr
