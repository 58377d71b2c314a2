import DocComments.Extraction
import DocComments.Script.Statement

/-!
# Programs

Imports and exports, whole programs, and the declarations of a script. The rules of the grammar are
tied together at a depth that the length of the script bounds.
-/

namespace DocComments.Script

open Reader

/-! ## Imports and exports -/

/-- The name of a module. -/
def moduleName : Reader Tree := do
  let mark ← here
  unless (← peek).isString do failAtLast .misplaced
  let token ← advance
  finishLiteral mark token

/-- Takes `from`, which must come next. -/
def expectFrom : Reader Unit := do
  let token ← peek
  if token.isContextual "from" then
    let _ ← advance
  else failAtLast ((token.mention?.map .unexpectedToken).getD .misplaced)

/-- One of several imported names. -/
def importSpecifier : Reader Tree := do
  let mark ← here
  let isName := (← peek).kind == .identifier
  let imported ← if isName then bindingName .other else propertyName
  let local_ ←
    if ← atContextual "as" then
      let _ ← advance
      bindingName .other
    else if isName then pure imported
    else failOn (← advance)
  finish mark "ImportSpecifier" (one "imported" imported ++ one "local" local_)

/-- Imported names in braces. -/
def namedImports : Reader (List Tree) := do
  expect "\x7b"
  let specifiers ← itemsUntil "\x7d" do
    let specifier ← importSpecifier
    unless ← atSign "\x7d" do expect ","
    return specifier
  expect "\x7d"
  return specifiers

/-- Everything imported under one name. -/
def namespaceImport : Reader Tree := do
  let mark ← here
  expect "*"
  unless ← atContextual "as" do failAtLast .misplaced
  let _ ← advance
  finish mark "ImportNamespaceSpecifier" (one "local" (← propertyName))

/-- What an import names, up to the module. -/
def importSpecifiers : Reader (List Tree) := do
  let token ← peek
  if token.isSign "\x7b" then namedImports
  else if token.isSign "*" then return [← namespaceImport]
  else if token.isPropertyName && !token.isKeyword "default" then
    let mark ← here
    let first ← finish mark "ImportDefaultSpecifier" (one "local" (← propertyName))
    if ← accept "," then
      if ← atSign "*" then return [first, ← namespaceImport]
      else if ← atSign "\x7b" then return first :: (← namedImports)
      else failOn (← peek)
    else return [first]
  else failOn (← advance)

/-- An import. -/
def importDeclaration : Reader Tree := do
  if (← context).inFunction then failAtLast .misplaced
  let mark ← here
  expectKeyword "import"
  let specifiers ←
    if (← peek).isString then pure []
    else
      let specifiers ← importSpecifiers
      expectFrom
      pure specifiers
  let source ← moduleName
  endStatement
  finish mark "ImportDeclaration" (many "specifiers" specifiers ++ one "source" source)

/-- One of several exported names, and whether it is `default`. -/
def exportSpecifier : Reader (Tree × Bool) := do
  let mark ← here
  let isDefault ← atKeyword "default"
  let local_ ← propertyName
  let exported ←
    if ← atContextual "as" then
      let _ ← advance
      propertyName
    else pure local_
  let tree ← finish mark "ExportSpecifier" (one "exported" exported ++ one "local" local_)
  return (tree, isDefault)

/-- Exported names in braces, and whether one of them is `default`. -/
def exportSpecifiers : Reader (List (Tree × Bool)) := do
  expect "\x7b"
  let parts ← itemsUntil "\x7d" do
    let part ← exportSpecifier
    unless ← atSign "\x7d" do expect ","
    return part
  expect "\x7d"
  return parts

/-- A name under which the default of a module is exported again. -/
def exportDefaultSpecifier : Reader Tree := do
  let mark ← here
  finish mark "ExportDefaultSpecifier" (one "local" (← propertyName))

/-- Exported names, and the module they come from. A name may stand before the braces, or instead
of them. -/
def exportNames (mark : Mark) : Reader Tree := do
  let first ←
    if (← peek).kind == .identifier then some <$> exportDefaultSpecifier else pure none
  let parts ←
    if first.isNone then exportSpecifiers
    else if ← accept "," then exportSpecifiers
    else pure []
  let source ←
    if ← atContextual "from" then
      let _ ← advance
      some <$> moduleName
    else
      if parts.any (·.2) then expectFrom
      pure none
  endStatement
  finish mark "ExportNamedDeclaration"
    (many "specifiers" (first.toList ++ parts.map (·.1)) ++ maybe "source" source)

/-- The default export of a module. -/
def exportDefault (r : Rules) (mark : Mark) : Reader Tree := do
  let declaration ←
    if ← atKeyword "function" then (·.1) <$> functionDeclaration r true
    else if ← atKeyword "class" then classDeclaration r true
    else if ← atContextual "async" then
      if ← atAsyncFunction then (·.1) <$> functionDeclaration r true else r.assignment
    else
      if ← atContextual "from" then failAtLast (.unexpectedToken (← peek).value)
      let value ←
        if ← atSign "\x7b" then object r
        else if ← atSign "[" then array r
        else r.assignment
      endStatement
      pure value
  finish mark "ExportDefaultDeclaration" (one "declaration" declaration)

/-- An export. -/
def exportDeclaration (r : Rules) : Reader Tree := do
  if (← context).inFunction then failAtLast .misplaced
  let mark ← here
  expectKeyword "export"
  let token ← peek
  if token.isKeyword "default" then
    let _ ← advance
    exportDefault r mark
  else if ← accept "*" then
    expectFrom
    let source ← moduleName
    endStatement
    finish mark "ExportAllDeclaration" (one "source" source)
  else if token.kind == .keyword then
    let declaration ← match token.value with
      | "let" => variableDeclaration r .let_
      | "const" => variableDeclaration r .const
      | "var" | "class" | "function" => r.item
      | _ => failOn token
    finish mark "ExportNamedDeclaration" (one "declaration" declaration)
  else if ← atAsyncFunction then
    let (declaration, _) ← functionDeclaration r false
    finish mark "ExportNamedDeclaration" (one "declaration" declaration)
  else exportNames mark

/-! ## Items and programs -/

/-- A statement or declaration. -/
def item (r : Rules) : Reader Tree := do
  modifyContext ({ · with isTarget := true, isBinding := true })
  let token ← peek
  let c ← context
  match token.kind, token.value with
  | .keyword, "export" =>
    unless c.isModule do tolerateWith token .misplaced
    exportDeclaration r
  | .keyword, "import" =>
    if ← atImportCall then expressionStatement r
    else
      unless c.isModule do tolerateWith token .misplaced
      importDeclaration
  | .keyword, "const" => variableDeclaration r .const
  | .keyword, "function" => (·.1) <$> functionDeclaration r false
  | .keyword, "class" => classDeclaration r false
  | .keyword, "let" =>
    if ← letDeclares then variableDeclaration r .let_ else statement r
  | _, _ => statement r

/-- The rules, nested so deep. -/
def rules : Nat → Rules
  | 0 =>
    let tooDeep {α : Type} : Reader α := failAtLast .tooDeep
    { assignment := tooDeep, unary := tooDeep, power := tooDeep, operand := tooDeep
      callee := tooDeep, pattern := fun _ => tooDeep, statement := tooDeep, item := tooDeep }
  | depth + 1 =>
    { assignment := fun s => assignment (rules depth) s
      unary := fun s => unary (rules depth) s
      power := fun s => power (rules depth) s
      operand := fun s => operand (rules depth) s
      callee := fun s => callee (rules depth) s
      pattern := fun binding s => pattern (rules depth) binding s
      statement := fun s => statement (rules depth) s
      item := fun s => item (rules depth) s }

/-- A whole program. -/
def program (r : Rules) : Reader Tree := do
  let mark ← here
  let first ← directives r
  let more ← collect do
    if ← atEnd then return none
    else return some (← r.item)
  let body := first ++ more
  if body.isEmpty then finish mark "Program" (many "body" body)
  else
    let s ← get
    set { s with trail := s.trail.pass }
    let span : Span :=
      { start := mark.index, stop := s.last.index, startLine := mark.line, stopLine := s.last.line }
    return ⟨{ type := some "Program", span }, s.trail.catches.size, many "body" body⟩

/-- The state before the first token is read. -/
def State.ofText (options : Options) (text : String) : State :=
  let scanner := Scanner.ofText text
  { tolerant := options.tolerant, scanner, before := scanner
    next := scanner.token .endOfInput "" scanner, last := scanner.mark }

/-- Reads the first token, then settles whether the script is a module. -/
def start (options : Options) : Reader Unit := do
  let _ ← advance
  modify fun s => { s with last := s.scanner.mark }
  if options.kind = .moduleCode then
    modifyContext ({ · with strict := true, isModule := true })

/-- The program that a script is. -/
def parse (options : Options) (text : String) : Except Fault Program := do
  let reading : Reader Tree := do
    start options
    program (rules (4 * text.length + 16))
  let (tree, state) ← reading (State.ofText options text)
  return { root := state.trail.attach tree, comments := state.trail.comments.reverse }

/-- The source tree of a script, with notes on the way. -/
def tree (options : Options) (text : String) : Traced SourceTree := do
  let program ← .lift ((parse options text).mapError .unreadable)
  let tree ← program.traced
  .note (.parsed tree.elements.length tree.comments.length)
  return tree

/-- The declarations of a script, with notes on the way. -/
def extract (options : Options) (text : String) : Traced (List Declaration) := do
  let tree ← Script.tree options text
  tree.extract

end DocComments.Script
