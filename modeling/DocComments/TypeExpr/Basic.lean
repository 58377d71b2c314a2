import DocComments.Decimal.Binary64

/-!
# Type expressions

The type of a documented declaration. Most kinds are written in a type specification; a class, an
interface and the type of an unconstrained variable come from the declaration they document.
-/

namespace DocComments

/-- A value that stands as a type. -/
inductive Literal where
  | text (value : String)
  | int (value : Int)
  | double (value : Decimal.Binary64)
deriving DecidableEq, Repr

/-- A member of an object type. -/
structure Field (τ : Type) where
  name : String
  type : τ
  optional : Bool
deriving DecidableEq, Repr

/-- A parameter of a function type. -/
structure Parameter (τ : Type) where
  type : τ
  name : Option String
  optional : Bool
  rest : Bool
deriving DecidableEq, Repr

/-- The type of a declaration. -/
inductive TypeExpr where
  /-- A type known by its name. -/
  | named (name : String)
  /-- A named type applied to arguments. -/
  | generic (name : String) (arguments : List TypeExpr)
  | nullable (type : TypeExpr)
  | array (type : TypeExpr)
  | object (fields : List (Field TypeExpr))
  /-- A function, whose result may be left open. -/
  | function (parameters : List (Parameter TypeExpr)) (result : Option TypeExpr)
  | union (types : List TypeExpr)
  | literal (value : Literal)
  /-- A class, with the parameters of its constructor once that is documented. -/
  | classType (parameters : Option (List (Parameter TypeExpr)))
  | interfaceType
  | anyType

end DocComments
