import DocComments.TypeExpr.Basic
import DocComments.TypeExpr.Token

/-!
# Reading type expressions

A type is one or more alternatives joined by bars. An alternative is a nullable type, an array, an
object, a function, a literal, or a name with optional arguments. The list of fields of an object
and the list of parameters of a function may end with a comma.

Each reader takes the tokens that are left and returns what it read with the tokens after it. A
failure keeps the tokens from the one at fault on. The readers count down a depth that the number
of tokens bounds, so `TypeExpr.read` never runs out of it.
-/

namespace DocComments.TypeExpr

/-- Why a list of tokens is not a type. -/
inductive Problem where
  | unexpectedEnd
  | unexpected (found : Lexeme)
  | expected (sign : Symbol) (found : Option Lexeme)
  | expectedField (found : Lexeme)
deriving DecidableEq, Repr

/-- A problem with the tokens that were left when it showed. -/
structure Stuck where
  problem : Problem
  rest : List Token
deriving DecidableEq, Repr

/-- The lexeme of the next token. -/
def next? (ts : List Token) : Option Lexeme :=
  ts.head?.map (·.lexeme)

/-- Is the next token this sign? -/
def atSymbol (sign : Symbol) (ts : List Token) : Bool :=
  next? ts == some (.symbol sign)

/-- The tokens after this sign, which must come next. -/
def expect (sign : Symbol) (ts : List Token) : Except Stuck (List Token) :=
  if atSymbol sign ts then .ok ts.tail else .error ⟨.expected sign (next? ts), ts⟩

/-- The tokens after this sign if it comes next, and whether it did. -/
def skip (sign : Symbol) (ts : List Token) : Bool × List Token :=
  if atSymbol sign ts then (true, ts.tail) else (false, ts)

/-- The text of a quoted lexeme between its quotes. -/
def unquoted (text : String) : String :=
  String.ofList (text.toList.drop 1).dropLast

/-- The value of a number behind its sign: whole without a decimal point, floating otherwise. -/
def unsignedValue (negative : Bool) (digits : List Char) : Literal :=
  let whole := digits.takeWhile (· ≠ '.')
  match digits.dropWhile (· ≠ '.') with
  | [] => .int (if negative then -Text.numeral whole else Text.numeral whole)
  | _ :: fraction =>
    .double (.ofDecimal negative (Text.numeral (whole ++ fraction)) fraction.length)

/-- The value of a number. It may have any number of digits; a limit on them that a platform can be
configured with is left out. -/
def numberValue (text : String) : Literal :=
  match text.toList with
  | '-' :: digits => unsignedValue true digits
  | digits => unsignedValue false digits

/-- The name that a parameter begins with, whether it is marked optional, and the tokens after its
colon. -/
def parameterName : List Token → Option (String × Bool × List Token)
  | ⟨.name name, _⟩ :: ⟨.symbol .colon, _⟩ :: rest => some (name, false, rest)
  | ⟨.name name, _⟩ :: ⟨.symbol .question, _⟩ :: ⟨.symbol .colon, _⟩ :: rest =>
    some (name, true, rest)
  | _ => none

/-- Several alternatives are a union; one stands for itself. -/
def ofAlternatives (first : TypeExpr) : List TypeExpr → TypeExpr
  | [] => first
  | more => .union (first :: more)

mutual

/-- A type: alternatives joined by bars. -/
def readType : Nat → List Token → Except Stuck (TypeExpr × List Token)
  | 0, ts => .error ⟨.unexpectedEnd, ts⟩
  | depth + 1, ts => do
    let (first, ts) ← readSingle depth ts
    let (more, ts) ← readAlternatives depth ts
    return (ofAlternatives first more, ts)

/-- The alternatives after the first, each with the bar before it. -/
def readAlternatives : Nat → List Token → Except Stuck (List TypeExpr × List Token)
  | 0, ts => .error ⟨.unexpectedEnd, ts⟩
  | depth + 1, ts =>
    if atSymbol .bar ts then do
      let (type, ts) ← readSingle depth ts.tail
      let (more, ts) ← readAlternatives depth ts
      return (type :: more, ts)
    else .ok ([], ts)

/-- A type that is no union. -/
def readSingle : Nat → List Token → Except Stuck (TypeExpr × List Token)
  | 0, ts => .error ⟨.unexpectedEnd, ts⟩
  | depth + 1, ts =>
    match ts with
    | [] => .error ⟨.unexpectedEnd, []⟩
    | ⟨.symbol .question, _⟩ :: rest => do
      let (type, rest) ← readSingle depth rest
      return (.nullable type, rest)
    | ⟨.symbol .openBracket, _⟩ :: rest => do
      let (type, rest) ← readType depth rest
      let rest ← expect .closeBracket rest
      return (.array type, rest)
    | ⟨.symbol .openBrace, _⟩ :: rest => do
      let (fields, rest) ← readFields depth rest
      return (.object fields, rest)
    | ⟨.symbol .openParen, _⟩ :: rest => do
      let (parameters, rest) ← readParameters depth rest
      if atSymbol .arrow rest || atSymbol .asciiArrow rest then
        let (result, rest) ← readType depth rest.tail
        return (.function parameters (some result), rest)
      else
        return (.function parameters none, rest)
    | ⟨.quoted text, _⟩ :: rest => .ok (.literal (.text (unquoted text)), rest)
    | ⟨.number text, _⟩ :: rest => .ok (.literal (numberValue text), rest)
    | ⟨.name name, _⟩ :: rest =>
      if atSymbol .openAngle rest then do
        let (arguments, rest) ← readArguments depth rest.tail
        return (.generic name arguments, rest)
      else .ok (.named name, rest)
    | token :: _ => .error ⟨.unexpected token.lexeme, ts⟩

/-- The arguments of a generic type and the angle bracket after them. -/
def readArguments : Nat → List Token → Except Stuck (List TypeExpr × List Token)
  | 0, ts => .error ⟨.unexpectedEnd, ts⟩
  | depth + 1, ts => do
    let (type, ts) ← readType depth ts
    if atSymbol .comma ts then
      let (more, ts) ← readArguments depth ts.tail
      return (type :: more, ts)
    else
      let ts ← expect .closeAngle ts
      return ([type], ts)

/-- The fields of an object and the brace after them. -/
def readFields : Nat → List Token → Except Stuck (List (Field TypeExpr) × List Token)
  | 0, ts => .error ⟨.unexpectedEnd, ts⟩
  | depth + 1, ts =>
    match ts with
    | [] => .error ⟨.unexpectedEnd, []⟩
    | ⟨.symbol .closeBrace, _⟩ :: rest => .ok ([], rest)
    | ⟨.name name, _⟩ :: rest => do
      let (optional, rest) := skip .question rest
      let rest ← expect .colon rest
      let (type, rest) ← readType depth rest
      let rest ← if atSymbol .closeBrace rest then .ok rest else expect .comma rest
      let (more, rest) ← readFields depth rest
      return (⟨name, type, optional⟩ :: more, rest)
    | token :: _ => .error ⟨.expectedField token.lexeme, ts⟩

/-- The parameters of a function and the parenthesis after them. -/
def readParameters : Nat → List Token → Except Stuck (List (Parameter TypeExpr) × List Token)
  | 0, ts => .error ⟨.unexpectedEnd, ts⟩
  | depth + 1, ts =>
    if atSymbol .closeParen ts then .ok ([], ts.tail)
    else do
      let (variadic, ts) := skip .ellipsis ts
      let (name, optional, ts) := match parameterName ts with
        | some (name, optional, ts) => (some name, optional, ts)
        | none => (none, false, ts)
      let (type, ts) ← readType depth ts
      let ts ← if atSymbol .closeParen ts then .ok ts else expect .comma ts
      let (more, ts) ← readParameters depth ts
      return (⟨type, name, optional, variadic⟩ :: more, ts)

end

/-- The type at the start of a list of tokens, and the tokens after it. -/
def read (ts : List Token) : Except Stuck (TypeExpr × List Token) :=
  readType (4 * ts.length + 4) ts

/-- The type that a whole list of tokens writes. -/
def ofTokens (ts : List Token) : Except Stuck TypeExpr := do
  let (type, rest) ← read ts
  match rest with
  | [] => return type
  | token :: _ => throw ⟨.unexpected token.lexeme, rest⟩

/-- Why a type specification cannot be read. -/
inductive SpecProblem where
  | strayChar (char : Char)
  | token (problem : Problem)
deriving DecidableEq, Repr

/-- A type specification that cannot be read, with the position at fault. -/
structure SpecError where
  text : String
  position : Nat
  problem : SpecProblem
deriving DecidableEq, Repr

/-- The type that a specification writes. -/
def parse (text : String) : Except SpecError TypeExpr :=
  match tokens text with
  | .error stray => .error ⟨text, stray.position, .strayChar stray.char⟩
  | .ok ts =>
    match ofTokens ts with
    | .ok type => .ok type
    | .error stuck =>
      .error ⟨text, (stuck.rest.head?.map (·.position)).getD text.length, .token stuck.problem⟩

end DocComments.TypeExpr
