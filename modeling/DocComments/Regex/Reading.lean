import DocComments.Regex.Piece
import DocComments.Regex.Width

/-!
# Reading regular expressions

The state of reading: the pieces that are left, and what is known of the groups and flags. Reading
ends without a result where the regular expression is not well formed.
-/

namespace DocComments.Regex

/-- The state of reading a regular expression. -/
structure State where
  /-- The pieces that are left. -/
  rest : List Piece
  /-- The widths of the groups in the order in which they open; an open one has none yet. -/
  groups : List (Option Width) := []
  /-- The names of groups with their numbers. -/
  names : List (List Nat × Nat) := []
  /-- Within a look-behind, the number of groups that were opened before it. -/
  behind : Option Nat := none
  /-- The numbers of groups that conditions ask for. -/
  conditions : List Nat := []
  /-- The flags that hold for the whole. -/
  flags : List Char := []
  /-- Is anything repeated? -/
  repeats : Bool := false

/-- Reading that keeps a state and may end without a result. -/
abbrev Reading := StateT State Option

namespace Reading

variable {α : Type}

/-- Ends without a result. -/
def refuse : Reading α :=
  fun _ => none

/-- Ends without a result unless a condition holds. -/
def require (condition : Bool) : Reading Unit :=
  if condition then pure () else refuse

/-- The next piece, if any is left. -/
def peek? : Reading (Option Piece) :=
  return (← get).rest.head?

/-- Passes over the next piece. -/
def skip : Reading Unit :=
  modify fun s => { s with rest := s.rest.tail }

/-- Takes the next piece, which must be there. -/
def next : Reading Piece := do
  match ← peek? with
  | some piece =>
    skip
    return piece
  | none => refuse

/-- Takes the next piece if it is this character. -/
def accept (c : Char) : Reading Bool := do
  if (← peek?).any (·.isChar c) then
    skip
    return true
  else return false

/-- Takes the next piece, which must be this character. -/
def expect (c : Char) : Reading Unit := do
  require (← accept c)

/-- Takes plain characters of a kind, at most so many. -/
def takeUpTo (count : Nat) (isKind : Char → Bool) : Reading (List Char) := do
  let chars := ((← get).rest.take count).map fun
    | .plain code => Script.charOfCode code
    | .escaped _ => '\\'
  let taken := chars.takeWhile isKind
  modify fun s => { s with rest := s.rest.drop taken.length }
  return taken

/-- Takes a text that is not empty up to a character, and the character with it. -/
def textUntil (c : Char) : Reading (List Nat) := do
  let text := (← get).rest.takeWhile (!·.isChar c)
  modify fun s => { s with rest := s.rest.drop text.length }
  expect c
  require !text.isEmpty
  return text.flatMap Piece.codes

/-! ## Groups -/

/-- Opens a group, which may have a name that no other has, and gives its number. -/
def openGroup (name : Option (List Nat)) : Reading Nat := do
  let s ← get
  let number := s.groups.length + 1
  if let some name := name then require !(s.names.any (·.1 == name))
  set { s with
    groups := s.groups ++ [none]
    names := (name.toList.map fun name => (name, number)) ++ s.names }
  return number

/-- Closes a group, whose width is now known. -/
def closeGroup (number : Nat) (width : Width) : Reading Unit :=
  modify fun s => { s with groups := s.groups.set (number - 1) (some width) }

/-- The width of a group, if it is closed. -/
def groupWidth? (number : Nat) : Reading (Option Width) :=
  return ((← get).groups[number - 1]?).join

/-- Within a look-behind, only a group that was closed before it can be asked for. -/
def requireBefore (number : Nat) : Reading Unit := do
  if let some count := (← get).behind then
    require ((← groupWidth? number).isSome && number ≤ count)

/-- The width of what a group matched before. -/
def reference (number : Nat) : Reading Width := do
  requireBefore number
  match ← groupWidth? number with
  | some width => return width
  | none => refuse

/-- The number of the group with a name. -/
def groupNamed (name : List Nat) : Reading Nat := do
  match (← get).names.find? (·.1 == name) with
  | some (_, number) => return number
  | none => refuse

end Reading

end DocComments.Regex
