import DocComments.Script.Reader

/-!
# Patterns

Binding patterns, expressions that are taken for patterns after all, and the parameters of
functions with what strict code forbids among them.
-/

namespace DocComments.Script

open Reader

/-! ## Expressions as patterns -/

/-- The type of the pattern that an expression can be taken for, and the field whose nodes are
taken for patterns with it. -/
def patternType? : Option String → Option (String × String)
  | some "SpreadElement" => some ("RestElement", "argument")
  | some "ArrayExpression" => some ("ArrayPattern", "elements")
  | some "ObjectExpression" => some ("ObjectPattern", "properties")
  | some "Property" => some ("Property", "value")
  | some "AssignmentExpression" => some ("AssignmentPattern", "left")
  | _ => none

mutual

/-- The expression taken for a pattern. -/
def asPattern : Tree → Tree
  | ⟨data, number, fields⟩ =>
    match patternType? data.type with
    | some (type, label) =>
      ⟨{ data with type := some type }, number, asPatternFields label fields⟩
    | none => ⟨data, number, fields⟩

/-- The fields with the nodes of one of them taken for patterns. -/
def asPatternFields (label : String) : List (String × Slot Tree) → List (String × Slot Tree)
  | [] => []
  | field :: fields => asPatternField label field :: asPatternFields label fields

/-- The field with its nodes taken for patterns if it has this label. -/
def asPatternField (label : String) : String × Slot Tree → String × Slot Tree
  | (own, slot) => (own, if own == label then asPatternSlot slot else slot)

/-- What a field holds, taken for patterns. -/
def asPatternSlot : Slot Tree → Slot Tree
  | .one tree => .one (asPattern tree)
  | .many trees => .many (asPatternList trees)

/-- Expressions taken for patterns. -/
def asPatternList : List Tree → List Tree
  | [] => []
  | tree :: trees => asPattern tree :: asPatternList trees

end

/-- The field of a pattern that holds the patterns in it. -/
def innerPatterns? : Option String → Option String
  | some "RestElement" => some "argument"
  | some "AssignmentPattern" => some "left"
  | some "ArrayPattern" => some "elements"
  | some "ObjectPattern" => some "properties"
  | some "Property" => some "value"
  | _ => none

mutual

/-- The names that a pattern binds. -/
def boundNames : Tree → List String
  | ⟨data, _, fields⟩ =>
    if data.type == some "Identifier" then data.name.toList
    else match innerPatterns? data.type with
      | some label => boundInFields label fields
      | none => []

/-- The names that the patterns in the field with this label bind. -/
def boundInFields (label : String) : List (String × Slot Tree) → List String
  | [] => []
  | field :: fields => boundInField label field ++ boundInFields label fields

/-- The names that the patterns in the field bind if it has this label. -/
def boundInField (label : String) : String × Slot Tree → List String
  | (own, slot) => if own == label then boundInSlot slot else []

/-- The names that what a field holds binds. -/
def boundInSlot : Slot Tree → List String
  | .one tree => boundNames tree
  | .many trees => boundInList trees

/-- The names that patterns bind. -/
def boundInList : List Tree → List String
  | [] => []
  | tree :: trees => boundNames tree ++ boundInList trees

end

/-! ## Binding patterns -/

/-- A name that is bound. -/
def bindingName (binding : Binding) : Reader Tree := do
  let mark ← here
  let token ← advance
  let c ← context
  if token.isKeyword "yield" then
    if c.strict then tolerateWith token .strictReservedWord
    else if !c.allowYield then failOn token
  else if token.kind != .identifier then
    if c.strict && token.kind == .keyword && strictWords.contains token.value then
      tolerateWith token .strictReservedWord
    else if c.strict || token.value != "let" || binding != .variables then failOn token
  else if (c.isModule || c.await) && token.value == "await" then tolerateOn token
  finishName mark token.value

/-- A pattern, or one with a default value. -/
def patternWithDefault (r : Rules) (binding : Binding) : Reader (Tree × List Token) := do
  let start ← peek
  let (pattern, names) ← r.pattern binding
  if ← accept "=" then
    let value ← within ({ · with allowYield := true })
      (fun outer inner => { inner with allowYield := outer.allowYield }) (isolated r.assignment)
    let tree ← finish start.mark "AssignmentPattern" (one "left" pattern ++ one "right" value)
    return (tree, names)
  else return (pattern, names)

/-- The rest of an array or object pattern, behind three dots. -/
def restPattern (r : Rules) (binding : Binding) : Reader (Tree × List Token) := do
  let mark ← here
  expect "..."
  let (argument, names) ← r.pattern binding
  return (← finish mark "RestElement" (one "argument" argument), names)

/-- An array pattern. -/
def arrayPattern (r : Rules) (binding : Binding) : Reader (Tree × List Token) := do
  let mark ← here
  expect "["
  let (parts, _) ← iterate (fun (parts, done) => do
    if done || (← atSign "]") then return none
    else if ← accept "," then return some (parts, false)
    else if ← atSign "..." then return some (parts ++ [← restPattern r binding], true)
    else
      let part ← patternWithDefault r binding
      unless ← atSign "]" do expect ","
      return some (parts ++ [part], false)) (([] : List (Tree × List Token)), false)
  expect "]"
  let tree ← finish mark "ArrayPattern" (many "elements" (parts.map (·.1)))
  return (tree, parts.flatMap (·.2))

/-- The key of a property: a name, a string, a number, or an expression in brackets. -/
def propertyKey (r : Rules) : Reader Tree := do
  let mark ← here
  let token ← advance
  match token.kind with
  | .string _ _ | .number _ =>
    if (← context).strict && token.isOctal then tolerateWith token .strictOctal
    finishLiteral mark token
  | .identifier | .boolean | .null | .keyword => finishName mark token.value
  | _ =>
    if token.isSign "[" then
      let key ← isolated r.assignment
      expect "]"
      return key
    else failOn token

/-- Finishes a property. -/
def finishProperty (mark : Mark) (key value : Tree) : Reader Tree :=
  finish mark "Property" (one "key" key ++ one "value" value)

/-- A property of an object pattern. -/
def propertyPattern (r : Rules) (binding : Binding) : Reader (Tree × List Token) := do
  let mark ← here
  let token ← peek
  if token.kind == .identifier then
    let key ← bindingName .other
    let name ← finishName mark token.value
    if ← accept "=" then
      let value ← r.assignment
      let value ← finish token.mark "AssignmentPattern" (one "left" name ++ one "right" value)
      return (← finishProperty mark key value, [token])
    else if ← accept ":" then
      let (value, names) ← patternWithDefault r binding
      return (← finishProperty mark key value, names)
    else return (← finishProperty mark key name, [token])
  else
    let key ← propertyKey r
    expect ":"
    let (value, names) ← patternWithDefault r binding
    return (← finishProperty mark key value, names)

/-- The remaining properties in an object pattern, which must come last. -/
def restProperty (r : Rules) : Reader (Tree × List Token) := do
  let mark ← here
  expect "..."
  let (argument, names) ← r.pattern .other
  if ← atSign "=" then failAtLast .restDefault
  unless ← atSign "\x7d" do failAtLast .misplaced
  return (← finish mark "RestElement" (one "argument" argument), names)

/-- An object pattern. -/
def objectPattern (r : Rules) (binding : Binding) : Reader (Tree × List Token) := do
  let mark ← here
  expect "\x7b"
  let parts ← itemsUntil "\x7d" do
    let part ← if ← atSign "..." then restProperty r else propertyPattern r binding
    unless ← atSign "\x7d" do expect ","
    return part
  expect "\x7d"
  let tree ← finish mark "ObjectPattern" (many "properties" (parts.map (·.1)))
  return (tree, parts.flatMap (·.2))

/-- A binding pattern, and the tokens of the names that it binds. -/
def pattern (r : Rules) (binding : Binding) : Reader (Tree × List Token) := do
  if ← atSign "[" then arrayPattern r binding
  else if ← atSign "\x7b" then objectPattern r binding
  else
    let token ← peek
    if token.isKeyword "let" && binding == .lexical then tolerateWith token .letBinding
    return (← bindingName binding, [token])

/-! ## Parameters -/

/-- Something that strict code forbids, found where it was still to be seen if the code is strict.
The line is that of the token, or of the last one read when it is reported. -/
structure Objection where
  line : Option Nat
  problem : Problem

/-- Ends with an objection. -/
def Objection.fail {α : Type} (objection : Objection) : Reader α := do
  throw ⟨objection.line.getD (← get).last.line, objection.problem⟩

/-- Notes an objection. -/
def Objection.note (objection : Objection) : Reader Unit := do
  tolerate ⟨objection.line.getD (← get).last.line, objection.problem⟩

/-- The parameters of a function, and what strict code objects to among them. -/
structure Formals where
  parameters : List Tree := []
  /-- Are all of them plain names? -/
  simple : Bool := true
  names : List String := []
  /-- The line of what strict code forbids in any case. -/
  forbidden : Option (Option Nat) := none
  /-- The line of the first name that strict code forbids. -/
  restricted : Option (Option Nat) := none
  problem : Option Problem := none

namespace Formals

/-- Notes a name that a parameter binds. -/
def addName (strict : Bool) (line : Option Nat) (f : Formals) (name : String) : Formals :=
  let isRestricted := restrictedNames.contains name
  let isDuplicate := f.names.contains name
  let f' :=
    if strict then
      if isDuplicate then
        { f with forbidden := some line, problem := some .duplicateParameter }
      else if isRestricted then
        { f with forbidden := some line, problem := some .strictParameterName }
      else f
    else if f.restricted.isNone then
      if isRestricted then { f with restricted := some line, problem := some .strictParameterName }
      else if strictWords.contains name then
        { f with restricted := some line, problem := some .strictReservedWord }
      else if isDuplicate then
        { f with forbidden := some line, problem := some .duplicateParameter }
      else f
    else f
  { f' with names := name :: f'.names }

/-- Adds a parameter that binds the names of these tokens. -/
def add (strict : Bool) (f : Formals) (parameter : Tree) (names : List Token) : Formals :=
  let f := names.foldl (fun f token => f.addName strict (some token.line) token.value) f
  { f with
    parameters := f.parameters ++ [parameter]
    simple := f.simple && parameter.hasType "Identifier" }

/-- What strict code objects to at the first forbidden name. -/
def restrictedObjection? (f : Formals) : Option Objection :=
  match f.restricted, f.problem with
  | some line, some problem => some ⟨line, problem⟩
  | _, _ => none

/-- What strict code objects to in any case. -/
def forbiddenObjection? (f : Formals) : Option Objection :=
  match f.forbidden, f.problem with
  | some line, some problem => some ⟨line, problem⟩
  | _, _ => none

end Formals

/-- A rest parameter, which must come last. -/
def restParameter (r : Rules) : Reader (Tree × List Token) := do
  let mark ← here
  expect "..."
  let (argument, names) ← r.pattern .other
  if ← atSign "=" then failAtLast .restDefault
  unless ← atSign ")" do failAtLast .restNotLast
  return (← finish mark "RestElement" (one "argument" argument), names)

/-- The parameters of a function in parentheses. The name of the function may already be forbidden
in strict code. -/
def formalParameters (r : Rules) (start : Formals) : Reader Formals := do
  expect "("
  let (formals, _) ← iterate (fun (formals, done) => do
    if done || (← atSign ")") || (← atEnd) then return none
    else
      let (parameter, names) ←
        if ← atSign "..." then restParameter r else patternWithDefault r .other
      let formals := formals.add (← context).strict parameter names
      if ← atSign ")" then return some (formals, true)
      else
        expect ","
        return some (formals, false)) (start, false)
  expect ")"
  return formals

end DocComments.Script
