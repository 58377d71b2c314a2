import DocComments.Script.Assignment

/-!
# Statements
-/

namespace DocComments.Script

open Reader

/-! ## Variables -/

/-- The words that declare variables. -/
inductive VariableWord where
  | var
  | let_
  | const
deriving DecidableEq, Repr

/-- What the patterns of a declaration bind. -/
def VariableWord.binding : VariableWord → Binding
  | var => .variables
  | _ => .lexical

/-- One declared variable with its value; gives back whether it has one. In the head of a loop the
value may be missing. -/
def declarator (r : Rules) (word : VariableWord) (inFor : Bool) : Reader (Tree × Bool) := do
  let mark ← here
  let (id, _) ← r.pattern word.binding
  if (← context).strict && id.identifier?.any restrictedNames.contains then
    tolerateHere .strictVariableName
  let isName := id.hasType "Identifier"
  let value ←
    if ← accept "=" then some <$> isolated r.assignment
    else
      match word with
      | .const =>
        unless (← atKeyword "in") || (← atContextual "of") do failAtLast .missingInitializer
      | _ => unless inFor || isName do expect "="
      pure none
  let tree ← finish mark "VariableDeclarator" (one "id" id ++ maybe "init" value)
  return (tree, value.isSome)

/-- The variables that a declaration declares. -/
def declarators (r : Rules) (word : VariableWord) (inFor : Bool) : Reader (List (Tree × Bool)) :=
  commaSeparated (declarator r word inFor)

/-- Finishes a variable declaration. -/
def finishVariables (mark : Mark) (parts : List (Tree × Bool)) : Reader Tree :=
  finish mark "VariableDeclaration" (many "declarations" (parts.map (·.1)))

/-- A declaration of variables, whose word comes next. -/
def variableDeclaration (r : Rules) (word : VariableWord) : Reader Tree := do
  let mark ← here
  let _ ← advance
  let parts ← declarators r word false
  endStatement
  finishVariables mark parts

/-- Does a binding follow the `let` that comes next? -/
def letDeclares : Reader Bool := do
  let second ← peekSecond
  return second.kind == .identifier || second.isSign "[" || second.isSign "\x7b" ||
    second.isKeyword "let" || second.isKeyword "yield"

/-! ## Simple statements -/

/-- A block of statements. -/
def block (r : Rules) : Reader Tree := do
  let mark ← here
  expect "\x7b"
  let body ← itemsUntil "\x7d" r.item
  expect "\x7d"
  finish mark "BlockStatement" (many "body" body)

/-- A statement that is an expression. -/
def expressionStatement (r : Rules) : Reader Tree := do
  let mark ← here
  let value ← expression r
  endStatement
  finish mark "ExpressionStatement" (one "expression" value)

/-- A statement without content, at the place reached. -/
def emptyHere : Reader Tree := do
  finish (← here) "EmptyStatement" []

/-- An expression in parentheses and the statement that it governs. If faults are tolerated, what
does not close the parentheses is passed over, with the statement. -/
def governed (r : Rules) (body : Reader Tree) : Reader (Tree × Tree × Bool) := do
  expect "("
  let test ← expression r
  if (← get).tolerant && !(← atSign ")") then
    tolerateOn (← advance)
    return (test, ← emptyHere, false)
  else
    expect ")"
    return (test, ← body, true)

/-- The body of a loop. -/
def loopBody (body : Reader Tree) : Reader Tree :=
  within ({ · with inIteration := true })
    (fun outer inner => { inner with inIteration := outer.inIteration }) body

/-- A branch of a condition. -/
def ifBranch (r : Rules) : Reader Tree := do
  if (← context).strict && (← atKeyword "function") then tolerateHere .strictFunction
  r.statement

/-- A condition. -/
def ifStatement (r : Rules) : Reader Tree := do
  let mark ← here
  expectKeyword "if"
  let (test, consequent, closed) ← governed r (ifBranch r)
  let alternate ←
    if closed && (← atKeyword "else") then
      let _ ← advance
      some <$> ifBranch r
    else pure none
  finish mark "IfStatement"
    (one "test" test ++ one "consequent" consequent ++ maybe "alternate" alternate)

/-- A loop that tests after its body. -/
def doStatement (r : Rules) : Reader Tree := do
  let mark ← here
  expectKeyword "do"
  let body ← loopBody r.statement
  expectKeyword "while"
  expect "("
  let test ← expression r
  if (← get).tolerant && !(← atSign ")") then tolerateOn (← advance)
  else
    expect ")"
    let _ ← accept ";"
  finish mark "DoWhileStatement" (one "body" body ++ one "test" test)

/-- A loop that tests before its body. -/
def whileStatement (r : Rules) : Reader Tree := do
  let mark ← here
  expectKeyword "while"
  let (test, body, _) ← governed r (loopBody r.statement)
  finish mark "WhileStatement" (one "test" test ++ one "body" body)

/-- A statement in the scope of an object. -/
def withStatement (r : Rules) : Reader Tree := do
  if (← context).strict then tolerateHere .strictWith
  let mark ← here
  expectKeyword "with"
  let (object, body, _) ← governed r r.statement
  finish mark "WithStatement" (one "object" object ++ one "body" body)

/-! ## Loops with a head -/

/-- The head of a `for` loop. -/
inductive ForHead where
  /-- A start, a test and a step, each of which may be missing. -/
  | steps (init test update : Option Tree)
  /-- The keys of an object. -/
  | keys (left right : Tree)
  /-- The values of an object. -/
  | values (left right : Tree)

/-- The test and step of a `for` loop. -/
def forSteps (r : Rules) (init : Option Tree) : Reader ForHead := do
  let test ← if ← atSign ";" then pure none else some <$> expression r
  expect ";"
  let step ← if ← atSign ")" then pure none else some <$> expression r
  return .steps init test step

/-- The object whose keys a loop runs over, behind `in`. -/
def forKeys (r : Rules) (left : Tree) : Reader ForHead := do
  let _ ← advance
  return .keys left (← expression r)

/-- The object whose values a loop runs over, behind `of`. -/
def forValues (r : Rules) (left : Tree) : Reader ForHead := do
  let _ ← advance
  return .values left (← r.assignment)

/-- Reads the head of a loop, where `in` is no operator. -/
def withoutIn {α : Type} (reader : Reader α) : Reader α :=
  within ({ · with allowIn := false }) (fun outer inner => { inner with allowIn := outer.allowIn })
    reader

/-- The head of a loop that begins with `var`. -/
def forVar (r : Rules) : Reader ForHead := do
  let mark ← here
  let _ ← advance
  let parts ← withoutIn (declarators r .var true)
  match parts with
  | [(part, hasValue)] =>
    if ← atKeyword "in" then
      let isName := (part.child? "id").any (·.hasType "Identifier")
      if hasValue && (!isName || (← context).strict) then tolerateHere .loopInitializer
      return ← forKeys r (← finishVariables mark parts)
    if !hasValue && (← atContextual "of") then
      return ← forValues r (← finishVariables mark parts)
  | _ => pure ()
  let init ← finishVariables mark parts
  expect ";"
  forSteps r (some init)

/-- The head of a loop that begins with `let` or `const`. -/
def forLexical (r : Rules) (word : VariableWord) : Reader ForHead := do
  let mark ← here
  let token ← advance
  if !(← context).strict && (← peek).value == "in" then
    forKeys r (← finishName mark token.value)
  else
    let parts ← withoutIn (declarators r word true)
    if let [(_, false)] := parts then
      if ← atKeyword "in" then return ← forKeys r (← finishVariables mark parts)
      if ← atContextual "of" then return ← forValues r (← finishVariables mark parts)
    endStatement
    let init ← finishVariables mark parts
    forSteps r (some init)

/-- The head of a loop that begins with an expression. -/
def forExpression (r : Rules) : Reader ForHead := do
  let start ← peek
  let init ← withoutIn (inherited r.assignment)
  let isTarget := (← context).isTarget && !init.hasType "AssignmentExpression"
  if ← atKeyword "in" then
    unless isTarget do tolerateHere .badForInTarget
    forKeys r (asPattern init)
  else if ← atContextual "of" then
    unless isTarget do tolerateHere .badForOfTarget
    forValues r (asPattern init)
  else
    let init ←
      if ← atSign "," then
        let more ← collect do
          if ← accept "," then return some (← isolated r.assignment)
          else return none
        finish start.mark "SequenceExpression" (many "expressions" (init :: more))
      else pure init
    expect ";"
    forSteps r (some init)

/-- A loop with a head. -/
def forStatement (r : Rules) : Reader Tree := do
  let mark ← here
  expectKeyword "for"
  expect "("
  let head ←
    if ← accept ";" then forSteps r none
    else if ← atKeyword "var" then forVar r
    else if ← atKeyword "const" then forLexical r .const
    else if ← atKeyword "let" then forLexical r .let_
    else forExpression r
  let body ←
    if (← get).tolerant && !(← atSign ")") then
      tolerateOn (← advance)
      emptyHere
    else
      expect ")"
      loopBody (isolated r.statement)
  match head with
  | .steps init test step =>
    finish mark "ForStatement"
      (maybe "init" init ++ maybe "test" test ++ maybe "update" step ++ one "body" body)
  | .keys left right =>
    finish mark "ForInStatement" (one "left" left ++ one "right" right ++ one "body" body)
  | .values left right =>
    finish mark "ForOfStatement" (one "left" left ++ one "right" right ++ one "body" body)

/-! ## Jumps -/

/-- The label of a jump, which must be known. -/
def jumpLabel : Reader (Option Tree) := do
  if (← peek).kind == .identifier && !(← get).newline then
    let label ← bindingName .other
    let name := label.data.name.getD ""
    unless (← context).labels.contains name do failAtLast (.unknownLabel name)
    return some label
  else return none

/-- Leaves a loop or switch. -/
def breakStatement : Reader Tree := do
  let mark ← here
  expectKeyword "break"
  let label ← jumpLabel
  endStatement
  let c ← context
  if label.isNone && !c.inIteration && !c.inSwitch then failAtLast .illegalBreak
  finish mark "BreakStatement" (maybe "label" label)

/-- Goes on with a loop. -/
def continueStatement : Reader Tree := do
  let mark ← here
  expectKeyword "continue"
  let label ← jumpLabel
  endStatement
  if label.isNone && !(← context).inIteration then failAtLast .illegalContinue
  finish mark "ContinueStatement" (maybe "label" label)

/-- Leaves a function. A string or template behind it is its value even on a further line. -/
def returnStatement (r : Rules) : Reader Tree := do
  unless (← context).inFunction do tolerateHere .illegalReturn
  let mark ← here
  expectKeyword "return"
  let next ← peek
  let isText := match next.kind with
    | .string _ _ | .template _ _ => true
    | _ => false
  let hasValue := isText || !(next.isSign ";" || next.isSign "\x7d" || (← get).newline ||
    next.kind == .endOfInput)
  let value ← if hasValue then some <$> expression r else pure none
  endStatement
  finish mark "ReturnStatement" (maybe "argument" value)

/-- Throws a value, which must begin on the same line. -/
def throwStatement (r : Rules) : Reader Tree := do
  let mark ← here
  expectKeyword "throw"
  if (← get).newline then failAtLast .newlineAfterThrow
  let value ← expression r
  endStatement
  finish mark "ThrowStatement" (one "argument" value)

/-! ## Compound statements -/

/-- A case of a switch, and whether it is the default. -/
def switchCase (r : Rules) : Reader (Tree × Bool) := do
  let mark ← here
  let test ←
    if ← atKeyword "default" then
      let _ ← advance
      pure none
    else
      expectKeyword "case"
      some <$> expression r
  expect ":"
  let body ← collect do
    if (← atSign "\x7d") || (← atKeyword "default") || (← atKeyword "case") then return none
    else return some (← r.item)
  let tree ← finish mark "SwitchCase" (maybe "test" test ++ many "consequent" body)
  return (tree, test.isNone)

/-- A switch. -/
def switchStatement (r : Rules) : Reader Tree := do
  let mark ← here
  expectKeyword "switch"
  expect "("
  let discriminant ← expression r
  expect ")"
  let cases ← within ({ · with inSwitch := true })
    (fun outer inner => { inner with inSwitch := outer.inSwitch })
    (do
      expect "\x7b"
      let (cases, _) ← iterate (fun (cases, hasDefault) => do
        if ← atSign "\x7d" then return none
        else
          let (clause, isDefault) ← switchCase r
          if isDefault && hasDefault then failAtLast .duplicateDefault
          return some (clause :: cases, hasDefault || isDefault)) (([] : List Tree), false)
      expect "\x7d"
      return cases.reverse)
  finish mark "SwitchStatement" (one "discriminant" discriminant ++ many "cases" cases)

/-- A handler of what was thrown. -/
def catchClause (r : Rules) : Reader Tree := do
  let mark ← here
  expectKeyword "catch"
  expect "("
  if ← atSign ")" then failOn (← peek)
  let (param, names) ← r.pattern .other
  let mut seen : List String := []
  for token in names do
    if seen.contains token.value then tolerateHere (.duplicateBinding token.value)
    seen := token.value :: seen
  if (← context).strict && param.identifier?.any restrictedNames.contains then
    tolerateHere .strictCatchVariable
  expect ")"
  let body ← block r
  finish mark "CatchClause" (one "param" param ++ one "body" body)

/-- A block with a handler or a last block. -/
def tryStatement (r : Rules) : Reader Tree := do
  let mark ← here
  expectKeyword "try"
  let body ← block r
  let handler ← if ← atKeyword "catch" then some <$> catchClause r else pure none
  let finalizer ←
    if ← atKeyword "finally" then
      let _ ← advance
      some <$> block r
    else pure none
  if handler.isNone && finalizer.isNone then failAtLast .missingCatch
  finish mark "TryStatement"
    (one "block" body ++ maybe "handler" handler ++ maybe "finalizer" finalizer)

/-- The statement behind a label. -/
def labelledBody (r : Rules) : Reader Tree := do
  let token ← peek
  if token.isKeyword "class" then
    tolerateOn token
    classDeclaration r false
  else if token.isKeyword "function" then
    let (tree, isGenerator) ← functionDeclaration r false
    if (← context).strict then tolerateWith token .strictFunction
    else if isGenerator then tolerateWith token .legacyGenerator
    return tree
  else r.statement

/-- A statement that begins with a name: a labelled one, or an expression. -/
def nameStatement (r : Rules) : Reader Tree := do
  let mark ← here
  let value ← expression r
  match value.identifier?, ← atSign ":" with
  | some name, true =>
    let _ ← advance
    if (← context).labels.contains name then failAtLast (.duplicateLabel name)
    modifyContext fun c => { c with labels := name :: c.labels }
    let body ← labelledBody r
    modifyContext fun c => { c with labels := c.labels.erase name }
    finish mark "LabeledStatement" (one "label" value ++ one "body" body)
  | _, _ =>
    endStatement
    finish mark "ExpressionStatement" (one "expression" value)

/-- A statement that begins with a keyword. -/
def keywordStatement (r : Rules) (word : String) : Reader Tree :=
  match word with
  | "break" => breakStatement
  | "continue" => continueStatement
  | "debugger" => do
    let mark ← here
    let _ ← advance
    endStatement
    finish mark "DebuggerStatement" []
  | "do" => doStatement r
  | "for" => forStatement r
  | "function" => (·.1) <$> functionDeclaration r false
  | "if" => ifStatement r
  | "return" => returnStatement r
  | "switch" => switchStatement r
  | "throw" => throwStatement r
  | "try" => tryStatement r
  | "var" => variableDeclaration r .var
  | "while" => whileStatement r
  | "with" => withStatement r
  | _ => expressionStatement r

/-- A statement. -/
def statement (r : Rules) : Reader Tree := do
  let token ← peek
  match token.kind with
  | .sign =>
    if token.isSign "\x7b" then block r
    else if token.isSign ";" then
      let mark ← here
      let _ ← advance
      finish mark "EmptyStatement" []
    else expressionStatement r
  | .identifier =>
    if ← atAsyncFunction then (·.1) <$> functionDeclaration r false else nameStatement r
  | .keyword => keywordStatement r token.value
  | .endOfInput => failOn token
  | _ => expressionStatement r

end DocComments.Script
