/-!
# Problems of scripts

Why a script cannot be read, and the line where that shows.
-/

namespace DocComments.Script

/-- Why a script cannot be read. -/
inductive Problem where
  /-- No token can be formed. -/
  | illegal
  | unexpectedEnd
  | unexpectedIdentifier
  | unexpectedNumber
  | unexpectedString
  | unexpectedTemplate (text : String)
  | unexpectedReserved
  | unexpectedToken (text : String)
  /-- A token that does not fit, not named in the message. -/
  | misplaced
  | strictReservedWord
  | escapedReservedWord
  | badHexEscape
  | octalInTemplate
  | unterminatedRegex
  | malformedRegex
  | badAssignmentTarget
  | badForInTarget
  | badForOfTarget
  | strictAssignment
  | strictPostfix
  | strictUnaryUpdate
  | strictDelete
  | strictOctal
  | strictWith
  | strictFunction
  | strictFunctionName
  | strictParameterName
  | strictVariableName
  | strictCatchVariable
  | duplicateParameter
  | duplicateBinding (name : String)
  | duplicateProto
  | duplicateLabel (name : String)
  | duplicateConstructor
  | duplicateDefault
  | unknownLabel (name : String)
  | illegalReturn
  | illegalBreak
  | illegalContinue
  | newlineAfterThrow
  | missingInitializer
  | loopInitializer
  | letBinding
  | missingCatch
  | accessorConstructor
  | asyncConstructor
  | staticPrototype
  | getterParameters
  | setterParameters
  | setterRest
  | restNotLast
  | restDefault
  | legacyGenerator
  | strictDirective
  /-- An import call takes one argument. -/
  | importArguments
  /-- The depth set for reading was used up. -/
  | tooDeep
deriving DecidableEq, Repr

/-- The text of a problem. -/
def Problem.message : Problem → String
  | illegal => "Unexpected token ILLEGAL"
  | unexpectedEnd => "Unexpected end of input"
  | unexpectedIdentifier => "Unexpected identifier"
  | unexpectedNumber => "Unexpected number"
  | unexpectedString => "Unexpected string"
  | unexpectedTemplate text => "Unexpected quasi " ++ text
  | unexpectedReserved => "Unexpected reserved word"
  | unexpectedToken text => "Unexpected token " ++ text
  | misplaced => "Unexpected token"
  | strictReservedWord => "Use of future reserved word in strict mode"
  | escapedReservedWord => "Keyword must not contain escaped characters"
  | badHexEscape => "Invalid hexadecimal escape sequence"
  | octalInTemplate => "Octal literals are not allowed in template strings."
  | unterminatedRegex => "Invalid regular expression: missing /"
  | malformedRegex => "Invalid regular expression"
  | badAssignmentTarget => "Invalid left-hand side in assignment"
  | badForInTarget => "Invalid left-hand side in for-in"
  | badForOfTarget => "Invalid left-hand side in for-loop"
  | strictAssignment => "Assignment to eval or arguments is not allowed in strict mode"
  | strictPostfix =>
    "Postfix increment/decrement may not have eval or arguments operand in strict mode"
  | strictUnaryUpdate =>
    "Prefix increment/decrement may not have eval or arguments operand in strict mode"
  | strictDelete => "Delete of an unqualified identifier in strict mode."
  | strictOctal => "Octal literals are not allowed in strict mode."
  | strictWith => "Strict mode code may not include a with statement"
  | strictFunction =>
    "In strict mode code, functions can only be declared at top level or inside a block"
  | strictFunctionName => "Function name may not be eval or arguments in strict mode"
  | strictParameterName => "Parameter name eval or arguments is not allowed in strict mode"
  | strictVariableName => "Variable name may not be eval or arguments in strict mode"
  | strictCatchVariable => "Catch variable may not be eval or arguments in strict mode"
  | duplicateParameter => "Strict mode function may not have duplicate parameter names"
  | duplicateBinding name => "Duplicate binding " ++ name
  | duplicateProto => "Duplicate __proto__ fields are not allowed in object literals"
  | duplicateLabel name => "Label '" ++ name ++ "' has already been declared"
  | duplicateConstructor => "A class may only have one constructor"
  | duplicateDefault => "More than one default clause in switch statement"
  | unknownLabel name => "Undefined label '" ++ name ++ "'"
  | illegalReturn => "Illegal return statement"
  | illegalBreak => "Illegal break statement"
  | illegalContinue => "Illegal continue statement"
  | newlineAfterThrow => "Illegal newline after throw"
  | missingInitializer => "Missing initializer in const declaration"
  | loopInitializer => "for-in loop variable declaration may not have an initializer"
  | letBinding => "let is disallowed as a lexically bound name"
  | missingCatch => "Missing catch or finally after try"
  | accessorConstructor => "Class constructor may not be an accessor"
  | asyncConstructor => "Class constructor may not be an async method"
  | staticPrototype => "Classes may not have static property named prototype"
  | getterParameters => "Getter must not have any formal parameters"
  | setterParameters => "Setter must have exactly one formal parameter"
  | setterRest => "Setter function argument must not be a rest parameter"
  | restNotLast => "Rest parameter must be last formal parameter"
  | restDefault => "Unexpected token ="
  | legacyGenerator => "Generator declarations are not allowed in legacy contexts"
  | strictDirective =>
    "Illegal 'use strict' directive in function with non-simple parameter list"
  | importArguments => "Unexpected token"
  | tooDeep => "Nesting is too deep"

/-- A problem with the line where it shows. -/
structure Fault where
  line : Nat
  problem : Problem
deriving DecidableEq, Repr

/-- The text of a fault. -/
def Fault.message (fault : Fault) : String :=
  "Line " ++ toString fault.line ++ ": " ++ fault.problem.message

end DocComments.Script
