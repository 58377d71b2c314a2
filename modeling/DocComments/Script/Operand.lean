import DocComments.Script.Primary

/-!
# Operands and operators

Members, calls and `new`; unary and binary operators with their precedence.
-/

namespace DocComments.Script

open Reader

/-! ## Members and calls -/

/-- The arguments of a call. Those that may be the parameters of an `async` arrow function may have
initialisers that only patterns have. -/
def arguments (r : Rules) (maybeParameters : Bool) : Reader (List Tree) := do
  expect "("
  let (arguments, _) ← iterate (fun (arguments, done) => do
    if done || (← atSign ")") then return none
    else
      let argument ←
        if ← atSign "..." then spread r
        else isolated do
          let argument ← r.assignment
          if maybeParameters then modifyContext ({ · with patternOnly := none })
          return argument
      if ← atSign ")" then return some (argument :: arguments, true)
      else
        expectComma
        return some (argument :: arguments, false)) (([] : List Tree), false)
  expect ")"
  return arguments.reverse

/-- A member that is named behind a dot. -/
def namedMember (mark : Mark) (object : Tree) : Reader Tree := do
  targetOnly
  expect "."
  let property ← propertyName
  finish mark "MemberExpression" (one "object" object ++ one "property" property)

/-- A member that is computed in brackets. -/
def computedMember (r : Rules) (mark : Mark) (object : Tree) : Reader Tree := do
  targetOnly
  expect "["
  let property ← isolated (expression r)
  expect "]"
  finishWith mark "MemberExpression" { computed := true }
    (one "object" object ++ one "property" property)

/-- A template with a tag. -/
def taggedTemplate (r : Rules) (mark : Mark) (tag : Tree) : Reader Tree := do
  let quasi ← template r
  finish mark "TaggedTemplateExpression" (one "tag" tag ++ one "quasi" quasi)

/-- `new` with what it calls. -/
def newExpression (r : Rules) : Reader Tree := do
  let mark ← here
  let id ← propertyName
  if ← accept "." then
    let token ← peek
    if token.isContextual "target" && (← context).inFunction then
      let property ← propertyName
      finish mark "MetaProperty" (one "meta" id ++ one "property" property)
    else failOn token
  else if ← atKeyword "import" then failOn (← peek)
  else
    let callee ← isolated r.callee
    let arguments ← if ← atSign "(" then arguments r false else pure []
    noPattern
    finish mark "NewExpression" (one "callee" callee ++ many "arguments" arguments)

/-- `super`, which one of these signs must follow. -/
def superExpression (followers : List String) : Reader Tree := do
  let mark ← here
  let _ ← advance
  let next ← peek
  unless next.kind == .sign && followers.contains next.value do failOn next
  finish mark "Super" []

/-- The start of an operand: `super`, `new` or a primary expression. -/
def operandStart (r : Rules) (followers : List String) : Reader Tree := do
  if (← atKeyword "super") && (← context).inFunction then superExpression followers
  else if ← atKeyword "new" then inherited (newExpression r)
  else inherited (primary r)

/-- One more member, call or template behind an operand. The token is the first of the operand, and
an operand that begins with `async` may be the head of an arrow function. -/
def operandStep (r : Rules) (start : Token) (maybeAsync : Bool) (tree : Tree) :
    Reader (Option Tree) := do
  let next ← peek
  if next.isSign "." then return some (← namedMember start.mark tree)
  else if next.isSign "(" then
    let maybeHead := maybeAsync && start.line == next.line
    noPattern
    let arguments ← arguments r maybeHead
    if tree.hasType "Import" && arguments.length != 1 then tolerateHere .importArguments
    let call ← finish start.mark "CallExpression" (one "callee" tree ++ many "arguments" arguments)
    if maybeHead && (← atSign "=>") then return some (← arrowHead true (arguments.map asPattern))
    else return some call
  else if next.isSign "[" then return some (← computedMember r start.mark tree)
  else if next.opensTemplate then return some (← taggedTemplate r start.mark tree)
  else return none

/-- An operand with members and calls. -/
def operand (r : Rules) : Reader Tree := do
  let start ← peek
  let maybeAsync ← atContextual "async"
  within ({ · with allowIn := true }) (fun outer inner => { inner with allowIn := outer.allowIn })
    (do
      let tree ← operandStart r ["(", ".", "["]
      iterate (operandStep r start maybeAsync) tree)

/-- An operand with members but without calls. -/
def callee (r : Rules) : Reader Tree := do
  let mark := (← peek).mark
  let tree ← operandStart r ["[", "."]
  iterate (fun tree => do
    let next ← peek
    if next.isSign "[" then return some (← computedMember r mark tree)
    else if next.isSign "." then return some (← namedMember mark tree)
    else if next.opensTemplate then return some (← taggedTemplate r mark tree)
    else return none) tree

/-! ## Unary operators -/

/-- Notes that what is counted up or down cannot be. -/
def checkUpdate (tree : Tree) (strictProblem : Problem) : Reader Unit := do
  let c ← context
  if c.strict && tree.identifier?.any restrictedNames.contains then tolerateHere strictProblem
  unless c.isTarget do tolerateHere .badAssignmentTarget

/-- An operand, or one that is counted up or down. -/
def update (r : Rules) : Reader Tree := do
  let start ← peek
  if start.isSign "++" || start.isSign "--" then
    let _ ← advance
    let argument ← inherited r.unary
    checkUpdate argument .strictUnaryUpdate
    let tree ← finish start.mark "UpdateExpression" (one "argument" argument)
    noPattern
    return tree
  else
    let argument ← inherited (operand r)
    let next ← peek
    if !(← get).newline && (next.isSign "++" || next.isSign "--") then
      checkUpdate argument .strictPostfix
      noPattern
      let _ ← advance
      finish start.mark "UpdateExpression" (one "argument" argument)
    else return argument

/-- Is the token a unary operator? -/
def isUnaryOperator (token : Token) : Bool :=
  (token.kind == .sign && ["+", "-", "~", "!"].contains token.value) ||
    (token.kind == .keyword && ["delete", "void", "typeof"].contains token.value)

/-- An expression with unary operators. -/
def unary (r : Rules) : Reader Tree := do
  let token ← peek
  if isUnaryOperator token then
    let _ ← advance
    let argument ← inherited r.unary
    let tree ← finish token.mark "UnaryExpression" (one "argument" argument)
    if (← context).strict && token.value == "delete" && argument.hasType "Identifier" then
      tolerateHere .strictDelete
    noPattern
    return tree
  else if (← context).await && token.isContextual "await" then
    let mark ← here
    let _ ← advance
    let argument ← r.unary
    finish mark "AwaitExpression" (one "argument" argument)
  else update r

/-! ## Binary operators -/

/-- A power, which groups to the right; a unary expression cannot be its base. -/
def power (r : Rules) : Reader Tree := do
  let start ← peek
  let left ← inherited (unary r)
  if !left.hasType "UnaryExpression" && (← atSign "**") then
    let _ ← advance
    noPattern
    let right ← isolated r.power
    finish start.mark "BinaryExpression" (one "left" left ++ one "right" right)
  else return left

/-- A left operand that waits for its right one: the token it begins with, its operator, and how
tightly that binds. -/
structure Waiting where
  left : Tree
  start : Token
  operator : String
  precedence : Nat

/-- Joins a right operand to the waiting ones whose operators bind at least so tightly. -/
def join (least : Nat) :
    List Waiting → Token → Tree → Reader (List Waiting × Token × Tree)
  | [], start, right => return ([], start, right)
  | waiting :: rest, start, right => do
    if least ≤ waiting.precedence then
      let type := if waiting.operator == "||" || waiting.operator == "&&" then "LogicalExpression"
        else "BinaryExpression"
      let tree ← finish waiting.start.mark type (one "left" waiting.left ++ one "right" right)
      join least rest waiting.start tree
    else return (waiting :: rest, start, right)

/-- An expression with binary operators. -/
def binary (r : Rules) : Reader Tree := do
  let start ← peek
  let first ← inherited (power r)
  let (waiting, start, right) ← iterate (fun (waiting, start, right) => do
    let token ← peek
    let level := precedence (← context).allowIn token
    if level = 0 then return none
    else
      let (waiting, start, left) ← join level waiting start right
      let _ ← advance
      noPattern
      let next ← peek
      let right ← isolated (power r)
      return some (⟨left, start, token.value, level⟩ :: waiting, next, right))
    (([] : List Waiting), start, first)
  let (_, _, tree) ← join 0 waiting start right
  return tree

end DocComments.Script
