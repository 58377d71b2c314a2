import DocComments.Script.Lexer
import DocComments.Script.Trail

/-!
# Reading with one token of lookahead

The state of reading a script: the next token, where it starts, where the last one ended, what the
surroundings allow, and the comments. A node covers the script from the start of its first token to
the end of the last token read when it is finished.

Rules that need each other are collected in `Rules`. Each rule of the grammar takes the `Rules` for
its parts, so that a script is read by rules of a fixed depth.
-/

namespace DocComments.Script

/-- How a script is to be read. -/
inductive Kind where
  | script
  | moduleCode
deriving DecidableEq, Repr

/-- How to read a script: as what, and whether to go on after faults that can be passed over. -/
structure Options where
  kind : Kind := .moduleCode
  tolerant : Bool := false
deriving DecidableEq, Repr

/-- An offset and its line. -/
structure Mark where
  index : Nat
  line : Nat
deriving DecidableEq, Repr

/-- What the surroundings allow. -/
structure Context where
  isModule : Bool := false
  strict : Bool := false
  /-- Is `await` an operator? -/
  await : Bool := false
  /-- Is `in` an operator? -/
  allowIn : Bool := true
  /-- Is `yield` a name? -/
  allowYield : Bool := true
  /-- May a directive make the function strict? -/
  allowStrictDirective : Bool := true
  /-- Can what was read be assigned to? -/
  isTarget : Bool := false
  /-- Can what was read bind names? -/
  isBinding : Bool := false
  /-- An initialiser that only a pattern may have. -/
  patternOnly : Option Token := none
  inFunction : Bool := false
  inIteration : Bool := false
  inSwitch : Bool := false
  labels : List String := []

/-- The state of reading a script. -/
structure State where
  tolerant : Bool
  /-- The place behind the next token. -/
  scanner : Scanner
  /-- The place before the next token. -/
  before : Scanner
  next : Token
  /-- Does a line break come before the next token? -/
  newline : Bool := false
  /-- The end of the last token. -/
  last : Mark
  context : Context := {}
  trail : Trail := {}

/-- Reading that keeps a state and may end with a fault. -/
abbrev Reader := StateT State (Except Fault)

/-- The place of a scanner. -/
def Scanner.mark (s : Scanner) : Mark :=
  ⟨s.index, s.line⟩

/-- The start of a token. A token of several lines has its last line, and starts a line before. -/
def Token.mark (token : Token) : Mark :=
  ⟨token.start, if token.start < token.lineStart then token.line - 1 else token.line⟩

namespace Reader

variable {α : Type}

/-! ## Faults -/

/-- Ends with a problem on the line of the last token. -/
def failAtLast (problem : Problem) : Reader α := do
  throw ⟨(← get).last.line, problem⟩

/-- Ends with a fault unless faults are tolerated. -/
def tolerate (fault : Fault) : Reader Unit := do
  unless (← get).tolerant do throw fault

/-- Notes a problem on the line that was read last. -/
def tolerateHere (problem : Problem) : Reader Unit := do
  tolerate ((← get).scanner.fault problem)

/-- What is wrong with a token that does not fit. -/
def unexpected (strict : Bool) (token : Token) : Problem :=
  match token.kind with
  | .endOfInput => .unexpectedEnd
  | .identifier => .unexpectedIdentifier
  | .number _ => .unexpectedNumber
  | .string _ _ => .unexpectedString
  | .template _ _ => .unexpectedTemplate token.value
  | .keyword =>
    if futureWords.contains token.value then .unexpectedReserved
    else if strict && strictWords.contains token.value then .strictReservedWord
    else .unexpectedToken token.value
  | _ => .unexpectedToken token.value

/-- Ends because a token does not fit. -/
def failOn (token : Token) : Reader α := do
  throw ⟨token.line, unexpected (← get).context.strict token⟩

/-- Notes that a token does not fit. -/
def tolerateOn (token : Token) : Reader Unit := do
  tolerate ⟨token.line, unexpected (← get).context.strict token⟩

/-- Ends with a problem on the line of a token. -/
def failWith (token : Token) (problem : Problem) : Reader α :=
  throw ⟨token.line, problem⟩

/-- Notes a problem on the line of a token. -/
def tolerateWith (token : Token) (problem : Problem) : Reader Unit :=
  tolerate ⟨token.line, problem⟩

/-! ## Tokens -/

/-- The next token. -/
def peek : Reader Token :=
  return (← get).next

/-- What the surroundings allow. -/
def context : Reader Context :=
  return (← get).context

/-- Changes what the surroundings allow. -/
def modifyContext (f : Context → Context) : Reader Unit :=
  modify fun s => { s with context := f s.context }

/-- Passes over blanks and comments, and keeps the comments. -/
def skipTrivia : Reader Unit := do
  let s ← get
  let (comments, scanner) ← s.scanner.skipTrivia s.context.isModule s.tolerant
  set { s with scanner, trail := comments.foldl Trail.addComment s.trail }

/-- Reads the next token into the state. A word that is no name in strict code is a keyword
there. -/
def lexNext (previous : Token) : Reader Unit := do
  let s ← get
  let (token, scanner) ← s.scanner.lex s.tolerant
  let reserved := s.context.strict && token.kind == .identifier && strictWords.contains token.value
  set { s with
    scanner
    before := s.scanner
    next := if reserved then { token with kind := .keyword } else token
    newline := previous.line != token.line }

/-- Takes the next token. -/
def advance : Reader Token := do
  let token ← peek
  modify fun s => { s with last := s.scanner.mark }
  skipTrivia
  lexNext token
  return token

/-- Takes the regular expression that the next token begins. -/
def advanceRegex : Reader Token := do
  let s ← get
  let (token, scanner) ← s.before.regex s.tolerant
  set { s with scanner, next := token }
  advance

/-- The token behind the next one. It is not taken, but if it opens or closes braces, that counts
already here, and once more when it is taken. -/
def peekSecond : Reader Token := do
  let s ← get
  let (_, scanner) ← s.scanner.skipTrivia s.context.isModule s.tolerant
  let (token, after) ← scanner.lex s.tolerant
  set { s with scanner := { s.scanner with braces := after.braces } }
  return token

/-- Is the next token this sign? -/
def atSign (sign : String) : Reader Bool :=
  return (← peek).isSign sign

/-- Is the next token this keyword? -/
def atKeyword (word : String) : Reader Bool :=
  return (← peek).isKeyword word

/-- Is the next token this identifier? -/
def atContextual (word : String) : Reader Bool :=
  return (← peek).isContextual word

/-- Is the input at its end? -/
def atEnd : Reader Bool :=
  return (← peek).kind == .endOfInput

/-- Takes a sign that must come next. -/
def expect (sign : String) : Reader Unit := do
  let token ← advance
  unless token.isSign sign do failOn token

/-- Takes a sign if it comes next. -/
def accept (sign : String) : Reader Bool := do
  if ← atSign sign then
    let _ ← advance
    return true
  else return false

/-- Takes a keyword that must come next. -/
def expectKeyword (word : String) : Reader Unit := do
  let token ← advance
  unless token.isKeyword word do failOn token

/-- Takes the comma between two items, which may be missing if faults are tolerated. -/
def expectComma : Reader Unit := do
  if (← get).tolerant then
    if ← atSign ";" then
      let _ ← advance
    else
      let _ ← accept ","
  else expect ","

/-- Ends a statement: by a semicolon, before a line break, or before what closes its block. In the
last case it reaches up to the next token. -/
def endStatement : Reader Unit := do
  unless ← accept ";" do
    unless (← get).newline do
      unless (← atEnd) || (← atSign "\x7d") do failOn (← peek)
      modify fun s => { s with last := s.before.mark }

/-! ## Nodes -/

/-- The start of a node that begins with the next token. -/
def here : Reader Mark :=
  return (← get).before.mark

/-- Is it a block without statements? -/
def isEmptyBlock (type : String) (fields : List (String × Slot Tree)) : Bool :=
  type == "BlockStatement" && fields.all fun
    | (_, .many trees) => trees.isEmpty
    | _ => true

/-- Finishes a node with its plain values. -/
def finishWith (mark : Mark) (type : String) (values : NodeData)
    (fields : List (String × Slot Tree)) : Reader Tree := do
  let s ← get
  let number := s.trail.catches.size
  let trail := s.trail.finish (isEmptyBlock type fields) mark.index s.last.index
  set { s with trail }
  let span : Span :=
    { start := mark.index, stop := s.last.index, startLine := mark.line, stopLine := s.last.line }
  return ⟨{ values with type := some type, span }, number, fields⟩

/-- Finishes a node. -/
def finish (mark : Mark) (type : String) (fields : List (String × Slot Tree)) : Reader Tree :=
  finishWith mark type {} fields

/-- Finishes an identifier. -/
def finishName (mark : Mark) (name : String) : Reader Tree :=
  finishWith mark "Identifier" { name := some name } []

/-- Finishes a literal, whose value matters if it is a string. -/
def finishLiteral (mark : Mark) (token : Token) : Reader Tree :=
  finishWith mark "Literal" { text := if token.isString then some token.value else none } []

/-- A field with one node. -/
def one (label : String) (tree : Tree) : List (String × Slot Tree) :=
  [(label, .one tree)]

/-- A field with a node that may be missing. -/
def maybe (label : String) : Option Tree → List (String × Slot Tree)
  | some tree => one label tree
  | none => []

/-- A field with several nodes. -/
def many (label : String) (trees : List Tree) : List (String × Slot Tree) :=
  [(label, .many trees)]

/-! ## Repetition -/

/-- Repeats a step while it gives a further value, at most so often. -/
def iterateWithin (step : α → Reader (Option α)) : (count : Nat) → α → Reader α
  | 0, _ => failAtLast .tooDeep
  | count + 1, a => do
    match ← step a with
    | none => return a
    | some b => iterateWithin step count b

/-- Repeats a step while it gives a further value. Each step takes a token, so there are no more
steps than characters and the tokens already read. -/
def iterate (step : α → Reader (Option α)) (a : α) : Reader α := do
  iterateWithin step ((← get).scanner.rest.length + 4) a

/-- Collects what a step gives while it gives something. -/
def collect (step : Reader (Option α)) : Reader (List α) := do
  let items ← iterate (fun items => do
    match ← step with
    | none => return none
    | some item => return some (item :: items)) []
  return items.reverse

/-- Items up to a closing sign. -/
def itemsUntil (closing : String) (item : Reader α) : Reader (List α) :=
  collect do
    if ← atSign closing then return none
    else return some (← item)

/-- One item, and more behind commas. -/
def commaSeparated (item : Reader α) : Reader (List α) := do
  let first ← item
  let more ← collect do
    if ← accept "," then return some (← item)
    else return none
  return first :: more

/-! ## Expressions that may turn out to be patterns -/

/-- Reads something that stands on its own: an initialiser that only a pattern may have is a fault
there, and the surroundings stay as they were. -/
def isolated (reader : Reader α) : Reader α := do
  let outer ← context
  modifyContext ({ · with isTarget := true, isBinding := true, patternOnly := none })
  let result ← reader
  match (← context).patternOnly with
  | some token => failOn token
  | none =>
    modifyContext ({ · with
      isTarget := outer.isTarget, isBinding := outer.isBinding, patternOnly := outer.patternOnly })
    return result

/-- Reads a part of something that may still turn out to be a pattern. -/
def inherited (reader : Reader α) : Reader α := do
  let outer ← context
  modifyContext ({ · with isTarget := true, isBinding := true, patternOnly := none })
  let result ← reader
  modifyContext fun c =>
    { c with
      isTarget := c.isTarget && outer.isTarget
      isBinding := c.isBinding && outer.isBinding
      patternOnly := outer.patternOnly.orElse fun _ => c.patternOnly }
  return result

/-- What was read can neither be assigned to nor bind names. -/
def noPattern : Reader Unit :=
  modifyContext ({ · with isTarget := false, isBinding := false })

/-- What was read can be assigned to, but binds no names. -/
def targetOnly : Reader Unit :=
  modifyContext ({ · with isTarget := true, isBinding := false })

/-- Reads in surroundings that are changed for the time. -/
def within (change : Context → Context) (restore : (outer inner : Context) → Context)
    (reader : Reader α) : Reader α := do
  let outer ← context
  modifyContext change
  let result ← reader
  modifyContext (restore outer)
  return result

end Reader

/-- What a pattern binds names for. -/
inductive Binding where
  | variables
  | lexical
  | other
deriving DecidableEq, Repr

/-- The rules that other rules need for their parts. -/
structure Rules where
  assignment : Reader Tree
  unary : Reader Tree
  power : Reader Tree
  /-- An operand with calls. -/
  operand : Reader Tree
  /-- An operand without calls, which `new` may call. -/
  callee : Reader Tree
  /-- A binding pattern, and the tokens of the names that it binds. -/
  pattern : Binding → Reader (Tree × List Token)
  statement : Reader Tree
  /-- A statement or declaration. -/
  item : Reader Tree

end DocComments.Script
