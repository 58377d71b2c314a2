/-!
# Widths of matches

How many characters a part of a regular expression matches, at least and at most.
-/

namespace DocComments.Regex

/-- The least and the greatest number of characters that something matches; the greatest may have
no bound. -/
structure Width where
  least : Nat
  most : Option Nat
deriving DecidableEq, Repr

namespace Width

/-- The width of what matches between characters. -/
def zero : Width :=
  ⟨0, some 0⟩

/-- The width of one character. -/
def one : Width :=
  ⟨1, some 1⟩

/-- The width of two parts in a row. -/
def append (a b : Width) : Width where
  least := a.least + b.least
  most := match a.most, b.most with
    | some m, some n => some (m + n)
    | _, _ => none

/-- The width of a choice between two parts. -/
def either (a b : Width) : Width where
  least := min a.least b.least
  most := match a.most, b.most with
    | some m, some n => some (max m n)
    | _, _ => none

/-- The width of a part that is repeated so often, at least and at most. -/
def times (least : Nat) (most : Option Nat) (a : Width) : Width where
  least := a.least * least
  most := match a.most, most with
    | some m, some n => some (m * n)
    | some 0, none => some 0
    | none, some 0 => some 0
    | _, _ => none

/-- The width of a choice between parts. -/
def ofChoice : List Width → Width
  | [] => zero
  | a :: rest => rest.foldl either a

/-- Can something of this width be looked for backwards? It must always be equally wide, and not
wider than the number of a repetition can be. -/
def isFixed (a : Width) : Bool :=
  a.most == some a.least && a.least ≤ 0xffffffff

end Width

end DocComments.Regex
