import DocComments.Script.Function

/-!
# Classes
-/

namespace DocComments.Script

open Reader

/-- Is the key of a property this name? -/
def isKey (key : Tree) (name : String) : Bool :=
  key.keyName? == some name

/-- A method while its parts are read. -/
structure MethodHead where
  /-- The token that tells what the method is. -/
  token : Token
  key : Option Tree
  computed : Bool
  isStatic : Bool
  isAsync : Bool

/-- Reads the words before a method and its key, as far as they can be told from it. -/
def methodHead (r : Rules) : Reader MethodHead := do
  let token ← peek
  if ← accept "*" then return ⟨token, none, false, false, false⟩
  let computed ← atSign "["
  let key ← propertyKey r
  let mut head : MethodHead := ⟨token, some key, computed, false, false⟩
  if key.identifier? == some "static" && ((← peek).isPropertyKey || (← atSign "*")) then
    let token ← peek
    let computed ← atSign "["
    let key ← if ← accept "*" then pure key else propertyKey r
    head := ⟨token, some key, computed, true, false⟩
  if head.token.isContextual "async" && !(← get).newline then
    let next ← peek
    unless [":", "(", "*"].contains next.value do
      let key ← propertyKey r
      if next.isContextual "constructor" then tolerateWith next .asyncConstructor
      head := { head with token := next, key := some key, isAsync := true }
  return head

/-- The function of a method, with its key and what it is. -/
structure MethodTail where
  key : Tree
  computed : Bool
  function : Tree
  kind : MethodKind

/-- Reads a method of a kind from its key on. -/
def methodTail (r : Rules) (kind : MethodKind) : Reader MethodTail := do
  let computed ← atSign "["
  let key ← propertyKey r
  if kind == .getter then modifyContext ({ · with allowYield := false })
  return ⟨key, computed, ← methodFunction r kind, kind⟩

/-- Reads what follows the words before a method and its key. -/
def methodRest (r : Rules) (head : MethodHead) : Reader MethodTail := do
  let next ← peek
  if next.isPropertyKey && head.token.isContextual "get" then methodTail r .getter
  else if next.isPropertyKey && head.token.isContextual "set" then methodTail r .setter
  else if next.isPropertyKey && head.token.isSign "*" then methodTail r .generator
  else match head.key with
    | some key =>
      if next.isSign "(" then
        let kind := if head.isAsync then MethodKind.async else .plain
        return ⟨key, head.computed, ← methodFunction r kind, kind⟩
      else failOn next
    | none => failOn next

/-- A method of a class; gives back whether the class has a constructor by now. -/
def classElement (r : Rules) (hasConstructor : Bool) : Reader (Tree × Bool) := do
  let mark ← here
  let head ← methodHead r
  let tail ← methodRest r head
  let isConstructor := !tail.computed && !head.isStatic && isKey tail.key "constructor"
  if !tail.computed && head.isStatic && isKey tail.key "prototype" then
    failWith head.token .staticPrototype
  if isConstructor then
    unless tail.kind == .plain || tail.kind == .async do failWith head.token .accessorConstructor
    if hasConstructor then failWith head.token .duplicateConstructor
  let tree ← finish mark "MethodDefinition" (one "key" tail.key ++ one "value" tail.function)
  return (tree, hasConstructor || isConstructor)

/-- The methods of a class in braces. -/
def classBody (r : Rules) : Reader Tree := do
  let mark ← here
  expect "\x7b"
  let (methods, _) ← iterate (fun (methods, hasConstructor) => do
    if ← atSign "\x7d" then return none
    else if ← accept ";" then return some (methods, hasConstructor)
    else
      let (method, hasConstructor) ← classElement r hasConstructor
      return some (method :: methods, hasConstructor)) (([] : List Tree), false)
  expect "\x7d"
  finish mark "ClassBody" (many "body" methods.reverse)

/-- A class declaration or expression, whose name may be missing. Its code is strict. -/
def classNode (r : Rules) (type : String) (nameOptional : Bool) : Reader Tree := do
  let mark ← here
  let outer ← context
  modifyContext ({ · with strict := true })
  expectKeyword "class"
  let id ← if nameOptional && (← peek).kind != .identifier then pure none
    else some <$> bindingName .other
  let superClass ←
    if ← atKeyword "extends" then
      let _ ← advance
      some <$> isolated r.operand
    else pure none
  let body ← classBody r
  modifyContext ({ · with strict := outer.strict })
  finish mark type (maybe "id" id ++ maybe "superClass" superClass ++ one "body" body)

/-- A class declaration; only an exported one may go without a name. -/
def classDeclaration (r : Rules) (nameOptional : Bool) : Reader Tree :=
  classNode r "ClassDeclaration" nameOptional

/-- A class expression. -/
def classExpression (r : Rules) : Reader Tree :=
  classNode r "ClassExpression" true

end DocComments.Script
