import DocComments.Script.Pattern

/-!
# Functions

The bodies of functions with their directives, function declarations and expressions, and the
functions of methods.
-/

namespace DocComments.Script

open Reader

/-! ## Expressions and directives -/

/-- Expressions joined by commas. -/
def expression (r : Rules) : Reader Tree := do
  let start ← peek
  let first ← isolated r.assignment
  if ← atSign "," then
    let more ← collect do
      if ← accept "," then return some (← isolated r.assignment)
      else return none
    finish start.mark "SequenceExpression" (many "expressions" (first :: more))
  else return first

/-- A statement that begins with a string, and the directive that it is if it is nothing else. -/
def directive (r : Rules) : Reader (Tree × Option String) := do
  let token ← peek
  let mark ← here
  let value ← expression r
  let text := match token.kind with
    | .string raw _ =>
      if value.hasType "Literal" then some (String.ofList (raw.toList.drop 1).dropLast) else none
    | _ => none
  endStatement
  let tree ← finish mark "ExpressionStatement" (one "expression" value)
  return (tree, text.filter (!·.isEmpty))

/-- The directives at the start of a script or function. One of them makes the code strict. -/
def directives (r : Rules) : Reader (List Tree) := do
  let (trees, _, _) ← iterate (fun (trees, octal, done) => do
    let token ← peek
    if done || !token.isString then return none
    else
      let (tree, text) ← directive r
      match text with
      | none => return some (tree :: trees, octal, true)
      | some "use strict" =>
        modifyContext ({ · with strict := true })
        if let some first := octal then tolerateWith first .strictOctal
        unless (← context).allowStrictDirective do tolerateWith token .strictDirective
        return some (tree :: trees, octal, false)
      | some _ =>
        let octal := octal.orElse fun _ => if token.isOctal then some token else none
        return some (tree :: trees, octal, false)) (([] : List Tree), (none : Option Token), false)
  return trees.reverse

/-- The body of a function in braces. -/
def functionBody (r : Rules) : Reader Tree := do
  let mark ← here
  expect "\x7b"
  let first ← directives r
  let body ← within
    ({ · with labels := [], inIteration := false, inSwitch := false, inFunction := true })
    (fun outer inner =>
      { inner with
        labels := outer.labels, inIteration := outer.inIteration, inSwitch := outer.inSwitch
        inFunction := outer.inFunction })
    (do
      let more ← collect do
        if (← atEnd) || (← atSign "\x7d") then return none
        else return some (← r.item)
      expect "\x7d"
      return first ++ more)
  finish mark "BlockStatement" (many "body" body)

/-! ## Functions of methods -/

/-- The body of a method. Strictness ends with it. -/
def methodBody (r : Rules) (formals : Formals) : Reader Tree := do
  noPattern
  let outer ← context
  modifyContext ({ · with allowStrictDirective := formals.simple })
  let body ← isolated (functionBody r)
  if (← context).strict then
    if let some objection := formals.restrictedObjection? then objection.note
    if let some objection := formals.forbiddenObjection? then objection.note
  modifyContext ({ · with
    strict := outer.strict, allowStrictDirective := outer.allowStrictDirective })
  return body

/-- What a method is. -/
inductive MethodKind where
  | plain | async | generator | getter | setter
deriving DecidableEq, Repr

/-- Checks the number of parameters of a getter or setter. -/
def checkArity (kind : MethodKind) (parameters : List Tree) : Reader Unit :=
  match kind, parameters with
  | .getter, _ :: _ => tolerateHere .getterParameters
  | .setter, [parameter] =>
    if parameter.hasType "RestElement" then tolerateHere .setterRest else pure ()
  | .setter, _ => tolerateHere .setterParameters
  | _, _ => pure ()

/-- The function of a method, from its parameters on. -/
def methodFunction (r : Rules) (kind : MethodKind) : Reader Tree := do
  let mark ← here
  let outer ← context
  modifyContext ({ · with allowYield := kind != .async, await := outer.await || kind == .async })
  let formals ← formalParameters r {}
  checkArity kind formals.parameters
  if kind == .generator then modifyContext ({ · with allowYield := false })
  let body ← methodBody r formals
  modifyContext ({ · with allowYield := outer.allowYield, await := outer.await })
  finish mark "FunctionExpression" (many "params" formals.parameters ++ one "body" body)

/-! ## Functions with a keyword -/

/-- Do `async` and `function` come next on one line? -/
def atAsyncFunction : Reader Bool := do
  if ← atContextual "async" then
    let line := (← get).scanner.line
    let second ← peekSecond
    return second.line == line && second.isKeyword "function"
  else return false

/-- The objection to the name of a function: at once in strict code, later otherwise. -/
def checkFunctionName (token : Token) : Reader Formals := do
  if restrictedNames.contains token.value then
    if (← context).strict then
      tolerateWith token .strictFunctionName
      return {}
    else return { restricted := some (some token.line), problem := some .strictFunctionName }
  else if !(← context).strict && strictWords.contains token.value then
    return { restricted := some (some token.line), problem := some .strictReservedWord }
  else return {}

/-- The parameters and body of a function whose name is already read. -/
def functionRest (r : Rules) (start : Formals) : Reader (List Tree × Tree) := do
  let formals ← formalParameters r start
  let outer ← context
  modifyContext ({ · with allowStrictDirective := formals.simple })
  let body ← functionBody r
  if (← context).strict then
    if let some objection := formals.restrictedObjection? then objection.fail
    if let some objection := formals.forbiddenObjection? then objection.note
  modifyContext ({ · with
    strict := outer.strict, allowStrictDirective := outer.allowStrictDirective })
  return (formals.parameters, body)

/-- Reads `async`, `function` and a star as far as they come, and tells which did. -/
def functionHead : Reader (Bool × Bool) := do
  let isAsync ← atContextual "async"
  if isAsync then
    let _ ← advance
  expectKeyword "function"
  let isGenerator ← if isAsync then pure false else accept "*"
  return (isAsync, isGenerator)

/-- Finishes a function. -/
def finishFunction (mark : Mark) (type : String) (id : Option Tree) (parameters : List Tree)
    (body : Tree) : Reader Tree :=
  finish mark type (maybe "id" id ++ many "params" parameters ++ one "body" body)

/-- A function declaration, and whether it is a generator. Only an exported one may go without a
name. -/
def functionDeclaration (r : Rules) (nameOptional : Bool) : Reader (Tree × Bool) := do
  let mark ← here
  let (isAsync, isGenerator) ← functionHead
  let (id, start) ←
    if nameOptional && (← atSign "(") then pure (none, {})
    else
      let token ← peek
      let id ← bindingName .other
      pure (some id, ← checkFunctionName token)
  let outer ← context
  modifyContext ({ · with await := isAsync, allowYield := !isGenerator })
  let (parameters, body) ← functionRest r start
  modifyContext ({ · with await := outer.await, allowYield := outer.allowYield })
  return (← finishFunction mark "FunctionDeclaration" id parameters body, isGenerator)

/-- A function expression. -/
def functionExpression (r : Rules) : Reader Tree := do
  let mark ← here
  let (isAsync, isGenerator) ← functionHead
  let outer ← context
  modifyContext ({ · with await := isAsync, allowYield := !isGenerator })
  let (id, start) ←
    if ← atSign "(" then pure (none, {})
    else
      let token ← peek
      let id ←
        if !outer.strict && !isGenerator && token.isKeyword "yield" then do
          let mark ← here
          let token ← advance
          finishName mark token.value
        else bindingName .other
      pure (some id, ← checkFunctionName token)
  let (parameters, body) ← functionRest r start
  modifyContext ({ · with await := outer.await, allowYield := outer.allowYield })
  finishFunction mark "FunctionExpression" id parameters body

end DocComments.Script
