/-!
# Where things stand in a source

Offsets count code points from zero; lines count from one.
-/

namespace DocComments

/-- The part of a source that a node or comment covers. -/
structure Span where
  start : Nat := 0
  stop : Nat := 0
  startLine : Nat := 1
  stopLine : Nat := 1
deriving DecidableEq, Repr

/-- A node as messages name it: by its type and the line it starts on. -/
structure Place where
  nodeType : String
  line : Nat
deriving DecidableEq, Repr

/-- The text that names a place. -/
def Place.describe (place : Place) : String :=
  "'" ++ place.nodeType ++ "' at line " ++ toString place.line

/-- Puts an item before the first one that does not start earlier. -/
def insertByStart {α : Type} (start : α → Nat) (x : α) : List α → List α
  | [] => [x]
  | y :: rest => if start x ≤ start y then x :: y :: rest else y :: insertByStart start x rest

/-- The items by where they start; those that start together keep their order. -/
def sortByStart {α : Type} (start : α → Nat) (items : List α) : List α :=
  items.foldr (insertByStart start) []

end DocComments
