import DocComments.Text.Quoted
import DocComments.TypeExpr.Parser

/-!
# Messages about type specifications
-/

namespace DocComments.TypeExpr

/-- A lexeme as messages show it. -/
def Lexeme.shown (lexeme : Lexeme) : String :=
  Text.quoted lexeme.text

/-- What is wrong with the tokens. -/
def Problem.message : Problem → String
  | unexpectedEnd => "Unexpected end of type"
  | unexpected found => "Unexpected " ++ found.shown
  | expected sign found =>
    "Expected " ++ Text.quoted sign.text ++ ", found " ++
      (found.map Lexeme.shown).getD "end of type"
  | expectedField found => "Expected field name, found " ++ found.shown

/-- What is wrong with the specification. -/
def SpecProblem.message : SpecProblem → String
  | strayChar char => "Unexpected character " ++ Text.quoted char.toString
  | token problem => problem.message

/-- What is wrong, where, and in which specification. -/
def SpecError.message (e : SpecError) : String :=
  e.problem.message ++ " at " ++ toString e.position ++ " in type '" ++ e.text ++ "'"

end DocComments.TypeExpr
