import DocComments.Script.Problem
import DocComments.Source.Span
import DocComments.TypeExpr.Message

/-!
# Failures

Everything that can stop an extraction, and how it is reported.
-/

namespace DocComments

/-- Why an extraction stops. -/
inductive Failure where
  /-- The source is no script. -/
  | unreadable (fault : Script.Fault)
  /-- A comment line is of no kind. -/
  | unknownLine (text : String)
  /-- The comment of a member has several lines. -/
  | noMemberSpec (text : String)
  /-- One comment documents several variables. -/
  | severalVariables (place : Place)
  /-- The documented element has no name. -/
  | noName (place : Place)
  /-- The documented element has no type of its own. -/
  | noType (place : Place)
  /-- Documentation stands where a member should. -/
  | strayDocumentation (text : String)
  /-- A declaration is indented deeper than the members it stands among. -/
  | misaligned (indent siblings : Nat) (identifier : Option String)
  /-- A parameter of a method cannot lend its name. -/
  | namelessParameter (nodeType : String) (method : Option String) (line : Nat)
  /-- A type specification cannot be read. -/
  | badSpec (error : TypeExpr.SpecError)
  /-- A method belongs to no class. -/
  | methodOutsideClass
deriving DecidableEq, Repr

/-- The text of a failure. -/
def Failure.message : Failure → String
  | unreadable fault => "Unable to parse source: " ++ fault.message
  | unknownLine text => "Unknown syntax in comment: " ++ text
  | noMemberSpec text => "Invalid comment spec syntax '" ++ text ++ "'."
  | severalVariables place =>
    "Unable to deal with a multi-variable declaration " ++ place.describe ++ "."
  | noName place => "Unable to derive declaration name from a " ++ place.describe ++ "."
  | noType place => "Unable to derive declaration type from a " ++ place.describe ++ "."
  | strayDocumentation text => "Unexpected documentation line: " ++ text
  | misaligned indent siblings identifier =>
    "Declaration indented by " ++ toString indent ++
      " does not line up with sibling declarations indented by " ++ toString siblings ++ ": " ++
      identifier.getD ""
  | namelessParameter nodeType method line =>
    "Unable to derive the name of a '" ++ nodeType ++ "' parameter of method '" ++
      method.getD "None" ++ "' at line " ++ toString line ++ "."
  | badSpec error => error.message
  | methodOutsideClass => "Expected method to be in a class declaration."

end DocComments
