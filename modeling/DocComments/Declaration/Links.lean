import DocComments.Declaration.Heading
import DocComments.Source.Tree

/-!
# Linking declarations

Declarations find their place in one forest that follows the elements of the source: a declaration
becomes a member of the one that an element around its own element has. A class that has none but
has a documented member gets one made up. The declaration of a constructor gives its parameters to
the class instead.

`Links` is the forest with the table of which element has which declaration. Both only grow.
-/

namespace DocComments

/-- The declarations of a source so far, and the elements they document. -/
structure Links where
  /-- The forest of declarations. -/
  declarations : List Declaration := []
  /-- Declarations that were registered but belong to no forest. -/
  loose : List Declaration := []
  /-- The elements with the origin of the declaration that each has; the last entry counts. -/
  table : List (Nat × Origin) := []

/-- Where a declaration goes. -/
inductive Destination where
  /-- It stands on its own. -/
  | top
  /-- It goes below the declaration from this origin. -/
  | below (parent : Origin)
  /-- It goes below a class that has no declaration yet. -/
  | belowImplied (element : Element) (heading : Heading)

namespace Links

/-- The origin of the declaration that an element has. -/
def owner? (links : Links) (element : Nat) : Option Origin :=
  (links.table.reverse.lookup element)

/-- The declaration from this origin. -/
def declaration? (links : Links) (origin : Origin) : Option Declaration :=
  Declaration.find? origin (links.declarations ++ links.loose)

/-- The declaration that the nearest element around has. An assignment declares a field of the
class, so methods around it are passed over. -/
def parent? (links : Links) (tree : SourceTree) (element : Element) : Option Origin :=
  ((tree.ancestors element).filter fun ancestor =>
    !(element.role.isAssignment && ancestor.role.isMethod)).findSome? fun ancestor =>
      links.owner? ancestor.index

/-- Where a declaration of the element goes. -/
def destination (links : Links) (tree : SourceTree) (element : Element) :
    Except Failure Destination :=
  match links.parent? tree element with
  | some parent => .ok (.below parent)
  | none =>
    match tree.enclosingClass? element with
    | none => .ok .top
    | some class_ => do
      let name ← class_.resolveName none
      let type ← class_.resolveType ""
      return .belowImplied class_ { name, type, spec := none }

/-- Records that the element has the declaration from this origin. -/
def record (links : Links) (element : Nat) (origin : Origin) : Links :=
  { links with table := links.table ++ [(element, origin)] }

/-- Records the declaration of an element that may be the program, which is never recorded. -/
def recordUnlessProgram (links : Links) (element : Element) (origin : Origin) : Links :=
  if element.role = .program then links else links.record element.index origin

/-- Puts a declaration at the end of the forest. -/
def append (links : Links) (declaration : Declaration) : Links :=
  { links with declarations := links.declarations ++ [declaration] }

/-- Changes the declaration from this origin. -/
def update (links : Links) (origin : Origin) (f : Declaration → Declaration) : Links :=
  { links with
    declarations := Declaration.updateAll origin f links.declarations
    loose := Declaration.updateAll origin f links.loose }

/-- Is it the type of a class? -/
def isClassType : TypeExpr → Bool
  | .classType _ => true
  | _ => false

/-- The parameters that a declaration of the element gives to the class it belongs to: it must be
the function of a constructor, and the class must be one. -/
def constructorParameters? (declaration : Declaration) (element : Element)
    (parent : Option Declaration) : Option (List (Parameter TypeExpr)) :=
  match element.role, declaration.heading.type with
  | .method (some "constructor") _, .function parameters _ =>
    if declaration.heading.name = "constructor" ∧ parent.any (isClassType ·.heading.type) then
      some parameters
    else none
  | _, _ => none

/-- Puts a declaration of the element below the one from `parent`. -/
def placeBelow (links : Links) (parent : Origin) (declaration : Declaration) (element : Element) :
    Links :=
  match constructorParameters? declaration element (links.declaration? parent) with
  | some parameters =>
    (links.update parent (.setConstructor parameters)).recordUnlessProgram element parent
  | none =>
    (links.update parent (.addMember declaration)).recordUnlessProgram element declaration.origin

/-- Puts a declaration of the element where it goes. -/
def place (links : Links) (declaration : Declaration) (element : Element) : Destination → Links
  | .top => (links.append declaration).recordUnlessProgram element declaration.origin
  | .below parent => links.placeBelow parent declaration element
  | .belowImplied class_ heading =>
    let origin := { declaration.origin with implied := true }
    ((links.append ⟨origin, heading, none⟩).record class_.index origin).placeBelow
      origin declaration element

/-- Links a declaration of the element into the forest. -/
def link (links : Links) (tree : SourceTree) (declaration : Declaration) (element : Element) :
    Except Failure Links :=
  (links.destination tree element).map (links.place declaration element)

/-- Records a declaration of the element that stays outside the forest. -/
def register (links : Links) (declaration : Declaration) (element : Nat) : Links :=
  { links with loose := links.loose ++ [declaration] }.record element declaration.origin

end Links

end DocComments
