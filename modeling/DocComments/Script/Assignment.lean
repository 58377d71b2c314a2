import DocComments.Script.Operand

/-!
# Assignments and arrow functions
-/

namespace DocComments.Script

open Reader

/-- A choice between two expressions, or one with binary operators. -/
def conditional (r : Rules) : Reader Tree := do
  let start ← peek
  let test ← inherited (binary r)
  if ← accept "?" then
    let consequent ← within ({ · with allowIn := true })
      (fun outer inner => { inner with allowIn := outer.allowIn }) (isolated r.assignment)
    expect ":"
    let alternate ← isolated r.assignment
    let tree ← finish start.mark "ConditionalExpression"
      (one "test" test ++ one "consequent" consequent ++ one "alternate" alternate)
    noPattern
    return tree
  else return test

/-! ## Generators -/

/-- Can the token begin an expression? -/
def beginsExpression (token : Token) : Bool :=
  match token.kind with
  | .sign =>
    ["[", "(", "\x7b", "+", "-", "!", "~", "++", "--", "/", "/="].contains token.value
  | .keyword =>
    ["class", "delete", "function", "let", "new", "super", "this", "typeof", "void",
      "yield"].contains token.value
  | _ => true

/-- `yield` with the value it hands out. -/
def yieldExpression (r : Rules) : Reader Tree := do
  let mark ← here
  expectKeyword "yield"
  let argument ←
    if (← get).newline then pure none
    else
      within ({ · with allowYield := false })
        (fun outer inner => { inner with allowYield := outer.allowYield })
        (do
          if (← accept "*") || beginsExpression (← peek) then some <$> r.assignment
          else return none)
  finish mark "YieldExpression" (maybe "argument" argument)

/-! ## Arrow functions -/

/-- The parameters of an arrow function, if the expression before the arrow can be such. -/
def arrowParameters? (tree : Tree) : Option (List Tree) :=
  if tree.hasType "Identifier" then some [tree]
  else if isArrowHead tree then some (tree.items "params")
  else none

/-- A `yield` without a value, as the default of a parameter, is a name. -/
def yieldAsName (parameter : Tree) : Reader Tree := do
  match parameter.hasType "AssignmentPattern", parameter.child? "right" with
  | true, some right =>
    if right.hasType "YieldExpression" then
      if (right.child? "argument").isSome then failOn (← peek)
      let name := { right with
        data := { right.data with type := some "Identifier", name := some "yield" } }
      return { parameter with
        fields := parameter.fields.map fun (label, slot) =>
          if label == "right" then (label, .one name) else (label, slot) }
    else return parameter
  | _, _ => return parameter

/-- Checks the parameters of an arrow function. -/
def arrowFormals (isAsync : Bool) (parameters : List Tree) : Reader Formals := do
  let c ← context
  let mut formals : Formals := {}
  for parameter in parameters do
    if isAsync && parameter.identifier? == some "await" then failOn (← peek)
    let parameter ← yieldAsName parameter
    formals := (boundNames parameter).foldl (fun f name => f.addName c.strict none name) formals
    formals := { formals with
      parameters := formals.parameters ++ [parameter]
      simple := formals.simple && parameter.hasType "Identifier" }
  if c.strict || !c.allowYield then
    if formals.parameters.any (·.hasType "YieldExpression") then failOn (← peek)
  if formals.problem == some .duplicateParameter then failAtLast .duplicateParameter
  return formals

/-- An arrow function from its arrow on. -/
def arrowFunction (r : Rules) (start : Token) (isAsync : Bool) (parameters : List Tree) :
    Reader Tree := do
  let formals ← arrowFormals isAsync parameters
  if (← get).newline then tolerateOn (← peek)
  modifyContext ({ · with patternOnly := none })
  let outer ← context
  modifyContext ({ · with
    allowStrictDirective := formals.simple, allowYield := true, await := isAsync })
  expect "=>"
  let body ←
    if ← atSign "\x7b" then
      within ({ · with allowIn := true })
        (fun outer inner => { inner with allowIn := outer.allowIn }) (functionBody r)
    else isolated r.assignment
  if (← context).strict then
    if let some objection := formals.restrictedObjection? then objection.fail
    if let some objection := formals.forbiddenObjection? then objection.note
  let tree ← finish start.mark "ArrowFunctionExpression"
    (many "params" formals.parameters ++ one "body" body)
  modifyContext ({ · with
    strict := outer.strict, allowStrictDirective := outer.allowStrictDirective
    allowYield := outer.allowYield, await := outer.await })
  return tree

/-! ## Assignments -/

/-- Notes that a name cannot be assigned to. -/
def checkTarget (token : Token) (tree : Tree) : Reader Unit := do
  let c ← context
  unless c.isTarget do tolerateHere .badAssignmentTarget
  if c.strict then
    if let some name := tree.identifier? then
      if restrictedNames.contains name then tolerateWith token .strictAssignment
      if strictWords.contains name then tolerateWith token .strictReservedWord

/-- The head of an arrow function that begins with `async` and a name. -/
def asyncHead (r : Rules) (start : Token) (tree : Tree) : Reader Tree := do
  let next ← peek
  if start.isContextual "async" && start.line == next.line &&
      (next.kind == .identifier || next.isKeyword "yield") then
    let parameter ← primary r
    arrowHead true [asPattern parameter]
  else return tree

/-- An assignment, an arrow function, or a lesser expression. -/
def assignment (r : Rules) : Reader Tree := do
  if !(← context).allowYield && (← atKeyword "yield") then yieldExpression r
  else
    let start ← peek
    let left ← conditional r
    let left ← asyncHead r start left
    if isArrowHead left || (← atSign "=>") then
      noPattern
      match arrowParameters? left with
      | some parameters =>
        arrowFunction r start (isArrowHead left && left.data.computed) parameters
      | none => return left
    else if (← peek).isAssignment then
      checkTarget start left
      let left ←
        if ← atSign "=" then pure (asPattern left)
        else
          noPattern
          pure left
      let _ ← advance
      let right ← isolated r.assignment
      let tree ← finish start.mark "AssignmentExpression" (one "left" left ++ one "right" right)
      modifyContext ({ · with patternOnly := none })
      return tree
    else return left

end DocComments.Script
