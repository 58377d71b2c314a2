import DocComments.Script.Class

/-!
# Primary expressions

Names, literals, templates, arrays, objects, functions, classes, and what stands in parentheses.
The parameters of an arrow function are first read as such expressions; a pair of parentheses that
can only be parameters is kept as an arrow head until the arrow is read.
-/

namespace DocComments.Script

open Reader

/-! ## Arrow heads -/

/-- The type of the nodes that hold the parameters of an arrow function until its arrow is read. One
stays in the tree if parentheses with a comma before the closing one are part of an expression. -/
def arrowHeadType : String := "ArrowParameterPlaceHolder"

/-- The parameters of an arrow function whose arrow is still to come. They pick up no comments. -/
def arrowHead (isAsync : Bool) (parameters : List Tree) : Reader Tree := do
  let s ← get
  set { s with trail := s.trail.pass }
  return ⟨{ type := some arrowHeadType, computed := isAsync }, s.trail.catches.size,
    many "params" parameters⟩

/-- Is it an arrow head? -/
def isArrowHead (tree : Tree) : Bool :=
  tree.hasType arrowHeadType

/-! ## Arrays and objects -/

/-- An expression behind three dots. -/
def spread (r : Rules) : Reader Tree := do
  let mark ← here
  expect "..."
  let argument ← inherited r.assignment
  finish mark "SpreadElement" (one "argument" argument)

/-- An array. -/
def array (r : Rules) : Reader Tree := do
  let mark ← here
  expect "["
  let elements ← itemsUntil "]" do
    if ← accept "," then return none
    else if ← atSign "..." then
      let element ← spread r
      unless ← atSign "]" do
        noPattern
        expect ","
      return some element
    else
      let element ← inherited r.assignment
      unless ← atSign "]" do expect ","
      return some element
  expect "]"
  finish mark "ArrayExpression" (many "elements" (elements.filterMap id))

/-- The value of a property of an object whose key is read, if it is no getter, setter or
generator. The first token of the property is given, and whether it stands for an `async` method. -/
def propertyValue (r : Rules) (mark : Mark) (token : Token) (isAsync : Bool) : Reader Tree := do
  if (← atSign ":") && !isAsync then
    let _ ← advance
    inherited r.assignment
  else if ← atSign "(" then methodFunction r (if isAsync then .async else .plain)
  else if token.kind == .identifier then
    let name ← finishName mark token.value
    if ← atSign "=" then
      let sign ← advance
      modifyContext ({ · with patternOnly := some sign })
      let value ← isolated r.assignment
      finish mark "AssignmentPattern" (one "left" name ++ one "right" value)
    else return name
  else failOn (← advance)

/-- The start of a property: its key, unless a star comes first, whether that is computed, and
whether the property is an `async` method. -/
structure PropertyHead where
  key : Option Tree
  computed : Bool
  isAsync : Bool

/-- Reads the start of a property, whose first token is given. -/
def propertyHead (r : Rules) (mark : Mark) (token : Token) : Reader PropertyHead := do
  if token.kind == .identifier then
    let _ ← advance
    let computed ← atSign "["
    let next ← peek
    let isAsync := !(← get).newline && token.value == "async" &&
      !(next.kind == .sign && [":", "(", "*", ","].contains next.value)
    let key ← if isAsync then propertyKey r else finishName mark token.value
    return ⟨some key, computed, isAsync⟩
  else if ← accept "*" then return ⟨none, false, false⟩
  else
    let computed ← atSign "["
    return ⟨some (← propertyKey r), computed, false⟩

/-- What method a property is if its first token tells, and a key follows it. -/
def specialMethod? (token next : Token) (isAsync : Bool) : Option MethodKind :=
  if !next.isPropertyKey then none
  else if token.isContextual "get" && !isAsync then some .getter
  else if token.isContextual "set" && !isAsync then some .setter
  else if token.isSign "*" then some .generator
  else none

/-- A property of an object. Gives back whether the object has a `__proto__` field by now. -/
def property (r : Rules) (hasProto : Bool) : Reader (Tree × Bool) := do
  let mark ← here
  let token ← peek
  let head ← propertyHead r mark token
  let next ← peek
  match specialMethod? token next head.isAsync, head.key with
  | some kind, _ =>
    let tail ← methodTail r kind
    return (← finishProperty mark tail.key tail.function, hasProto)
  | none, some key =>
    let isProto := next.isSign ":" && !head.isAsync && !head.computed && isKey key "__proto__"
    if isProto && hasProto then tolerateHere .duplicateProto
    let value ← propertyValue r mark token head.isAsync
    return (← finishProperty mark key value, hasProto || isProto)
  | none, none => failOn next

/-- An object. -/
def object (r : Rules) : Reader Tree := do
  let mark ← here
  expect "\x7b"
  let (properties, _) ← iterate (fun (properties, hasProto) => do
    if ← atSign "\x7d" then return none
    else
      let (property, hasProto) ←
        if ← atSign "..." then pure (← spread r, hasProto) else property r hasProto
      unless ← atSign "\x7d" do expectComma
      return some (property :: properties, hasProto)) (([] : List Tree), false)
  expect "\x7d"
  finish mark "ObjectExpression" (many "properties" properties.reverse)

/-! ## Templates -/

/-- A piece of a template, and whether it closes it. -/
def templateElement : Reader (Tree × Bool) := do
  let mark ← here
  match (← peek).kind with
  | .template _ closes =>
    let _ ← advance
    return (← finish mark "TemplateElement" [], closes)
  | _ => failAtLast .illegal

/-- A template: its pieces and the expressions between them. -/
def template (r : Rules) : Reader Tree := do
  let mark ← here
  let (first, closed) ← templateElement
  let (quasis, expressions, _) ← iterate (fun (quasis, expressions, closed) => do
    if closed then return none
    else
      let value ← expression r
      let (quasi, closed) ← templateElement
      return some (quasi :: quasis, value :: expressions, closed))
    ([first], ([] : List Tree), closed)
  finish mark "TemplateLiteral"
    (many "expressions" expressions.reverse ++ many "quasis" quasis.reverse)

/-! ## Parentheses -/

/-- The arrow that must come next, and stays the next token. -/
def requireArrow : Reader Unit := do
  unless ← atSign "=>" do expect "=>"

/-- Takes the closing parenthesis of something that may be the parameters of an arrow function. -/
def closeGroup (tree : Tree) (expressions : List Tree) : Reader Tree := do
  expect ")"
  let result ←
    if ← atSign "=>" then
      if tree.identifier? == some "yield" then arrowHead false [tree]
      else
        unless (← context).isBinding do failOn (← peek)
        arrowHead false (expressions.map asPattern)
    else pure tree
  modifyContext ({ · with isBinding := false })
  return result

/-- What stands in parentheses after the first expression and a comma. -/
def groupRest (r : Rules) (start : Token) (first : Tree) : Reader Tree := do
  modifyContext ({ · with isTarget := false })
  let (expressions, isHead) ← iterate (fun (expressions, isHead) => do
    if isHead || !(← atSign ",") then return none
    else
      let _ ← advance
      if ← accept ")" then return some (expressions, true)
      else if ← atSign "..." then
        unless (← context).isBinding do failOn (← peek)
        let (rest, _) ← restParameter r
        expect ")"
        requireArrow
        modifyContext ({ · with isBinding := false })
        return some (expressions ++ [rest], true)
      else return some (expressions ++ [← inherited r.assignment], false)) ([first], false)
  if isHead then arrowHead false (expressions.map asPattern)
  else
    let tree ← finish start.mark "SequenceExpression" (many "expressions" expressions)
    closeGroup tree expressions

/-- What stands in parentheses: an expression, or the parameters of an arrow function. -/
def group (r : Rules) : Reader Tree := do
  expect "("
  if ← accept ")" then
    requireArrow
    arrowHead false []
  else if ← atSign "..." then
    let (rest, _) ← restParameter r
    expect ")"
    requireArrow
    arrowHead false [rest]
  else
    let start ← peek
    modifyContext ({ · with isBinding := true })
    let first ← inherited r.assignment
    if ← atSign "," then groupRest r start first else closeGroup first [first]

/-! ## All primary expressions -/

/-- A name, keywords included. -/
def propertyName : Reader Tree := do
  let mark ← here
  let token ← advance
  unless token.isPropertyName do failOn token
  finishName mark token.value

/-- Do `import` and a parenthesis come next? -/
def atImportCall : Reader Bool := do
  if ← atKeyword "import" then return (← peekSecond).isSign "("
  else return false

/-- A keyword that stands for an expression. -/
def keywordExpression (r : Rules) (mark : Mark) (word : String) : Reader Tree := do
  let c ← context
  if !c.strict && c.allowYield && word == "yield" then propertyName
  else if !c.strict && word == "let" then
    let token ← advance
    finishName mark token.value
  else
    noPattern
    match word with
    | "function" => functionExpression r
    | "class" => classExpression r
    | "this" =>
      let _ ← advance
      finish mark "ThisExpression" []
    | _ =>
      if ← atImportCall then
        let _ ← advance
        finish mark "Import" []
      else failOn (← advance)

/-- A sign that begins an expression. -/
def signExpression (r : Rules) (mark : Mark) (sign : String) : Reader Tree := do
  match sign with
  | "(" =>
    modifyContext ({ · with isBinding := false })
    inherited (group r)
  | "[" => inherited (array r)
  | "\x7b" => inherited (object r)
  | "/" | "/=" =>
    noPattern
    let token ← advanceRegex
    finishLiteral mark token
  | _ => failOn (← advance)

/-- A primary expression. -/
def primary (r : Rules) : Reader Tree := do
  let mark ← here
  let token ← peek
  let c ← context
  match token.kind with
  | .identifier =>
    if (c.isModule || c.await) && token.value == "await" then tolerateOn token
    if ← atAsyncFunction then functionExpression r
    else
      let _ ← advance
      finishName mark token.value
  | .number _ | .string _ _ =>
    if c.strict && token.isOctal then tolerateWith token .strictOctal
    noPattern
    let _ ← advance
    finishLiteral mark token
  | .boolean | .null =>
    noPattern
    let _ ← advance
    finishLiteral mark token
  | .template _ _ => template r
  | .sign => signExpression r mark token.value
  | .keyword => keywordExpression r mark token.value
  | _ => failOn (← advance)

end DocComments.Script
