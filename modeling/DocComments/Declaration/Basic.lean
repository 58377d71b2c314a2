import DocComments.TypeExpr.Basic

/-!
# Declarations

A declaration has a heading and members, which are declarations in turn. Its origin tells it apart
from every other declaration: the line that declares it, or, for a class that no comment declares,
the line that brought it about.
-/

namespace DocComments

/-- The line that a declaration comes from. -/
structure Origin where
  /-- The block of comment lines. -/
  block : Nat
  /-- The line within the block. -/
  line : Nat
  /-- Is it a class that the line implies but does not declare? -/
  implied : Bool := false
deriving DecidableEq, Repr

/-- What a declaration says, apart from its members. -/
structure Heading where
  name : String
  /-- The type as it is written; `none` where the type comes from the source. -/
  spec : Option String := none
  type : TypeExpr

/-- A declaration with its members. -/
structure Declaration where
  origin : Origin
  heading : Heading
  /-- The members in order; `none` where there are none, so the list is not meant to be empty. -/
  members : Option (List Declaration)

namespace Declaration

mutual

/-- The declaration with `f` applied to the parts of it that come from `origin`. -/
def update (origin : Origin) (f : Declaration → Declaration) : Declaration → Declaration
  | ⟨own, heading, members⟩ =>
    let declaration := ⟨own, heading, updateMembers origin f members⟩
    if own = origin then f declaration else declaration

/-- The members of a declaration with `f` applied to the parts of them that come from `origin`. -/
def updateMembers (origin : Origin) (f : Declaration → Declaration) :
    Option (List Declaration) → Option (List Declaration)
  | none => none
  | some members => some (updateAll origin f members)

/-- The declarations with `f` applied to the parts of them that come from `origin`. -/
def updateAll (origin : Origin) (f : Declaration → Declaration) :
    List Declaration → List Declaration
  | [] => []
  | declaration :: rest => update origin f declaration :: updateAll origin f rest

end

mutual

/-- The declaration in pre-order with all that is below it. -/
def preorder : Declaration → List Declaration
  | ⟨origin, heading, members⟩ => ⟨origin, heading, members⟩ :: preorderMembers members

/-- The members of a declaration in pre-order with all that is below them. -/
def preorderMembers : Option (List Declaration) → List Declaration
  | none => []
  | some members => preorderAll members

/-- The declarations in pre-order with all that is below them. -/
def preorderAll : List Declaration → List Declaration
  | [] => []
  | declaration :: rest => preorder declaration ++ preorderAll rest

end

/-- The declaration from this origin, anywhere in the forest. -/
def find? (origin : Origin) (forest : List Declaration) : Option Declaration :=
  (preorderAll forest).find? (·.origin = origin)

/-- The declaration with one more member at the end. -/
def addMember (member declaration : Declaration) : Declaration :=
  { declaration with members := some (declaration.members.getD [] ++ [member]) }

/-- The declaration of a class with the parameters of its constructor. -/
def setConstructor (parameters : List (Parameter TypeExpr)) (declaration : Declaration) :
    Declaration :=
  { declaration with
    heading := { declaration.heading with type := .classType (some parameters) } }

end Declaration

end DocComments
