import DocComments.Regex.Group

/-!
# Well-formed regular expressions

A regular expression is a choice between sequences of items and groups. What a look-behind looks for
must have a fixed width.

The regular expressions of scripts are held to this syntax: named groups are written
`(?P<name>…)`, and letters without a meaning cannot be escaped.
-/

namespace DocComments.Regex

open Reading

/-! ## Sequences and choices -/

/-- Is it a blank that counts for nothing where blanks and comments are allowed? -/
def isPadding (c : Char) : Bool :=
  c == ' ' || c == '\t' || c == '\n' || c == '\r' || c == '\x0b' || c == '\x0c'

/-- Adds a group to a sequence. Flags for the whole can only stand at its start; gives back whether
blanks and comments are allowed from there on. -/
def addGroup (choice : (verbose : Bool) → Reading (List Width)) (isStart verbose : Bool)
    (s : Sequence) : Reading (Bool × Sequence) := do
  let head ← groupHead
  match head with
  | .flags on =>
    require (isStart && s.last.isNone)
    modify fun state => { state with flags := on ++ state.flags }
    return ((← get).flags.contains 'x', s)
  | _ =>
    match ← groupItem choice verbose head with
    | some item => return (verbose, s.push item)
    | none => return (verbose, s)

/-- Adds what a piece begins to a sequence; gives back whether blanks and comments are allowed from
there on. -/
def addPiece (choice : (verbose : Bool) → Reading (List Width)) (isStart verbose : Bool)
    (s : Sequence) : Piece → Reading (Bool × Sequence)
  | .escaped code => return (verbose, s.push (← escape code))
  | .plain code => do
    let c := Script.charOfCode code
    if verbose && isPadding c then return (verbose, s)
    else if verbose && c == '#' then
      modify fun state => { state with rest := state.rest.dropWhile (!·.isChar '\n') }
      return (verbose, s)
    else if c == '[' then
      characterSet
      return (verbose, s.push (.plain .one))
    else if c == '^' || c == '$' then return (verbose, s.push .anchor)
    else if c == '(' then addGroup choice isStart verbose s
    else
      match ← bounds? c with
      | some bounds => return (verbose, ← repeatLast bounds s)
      | none => return (verbose, s.push (.plain .one))

/-- The width of the sequence that comes next, in at most so many steps. -/
def sequenceWithin (choice : (verbose : Bool) → Reading (List Width)) (isStart : Bool) :
    (count : Nat) → (verbose : Bool) → Sequence → Reading Width
  | 0, _, _ => refuse
  | count + 1, verbose, s => do
    match ← peek? with
    | none => return s.width
    | some piece =>
      if piece.isChar '|' || piece.isChar ')' then return s.width
      else
        skip
        let (verbose, s) ← addPiece choice isStart verbose s piece
        sequenceWithin choice isStart count verbose s

/-- The widths of the sequences between which there is a choice, in at most so many steps. The
choice may be the whole, and what comes next its start. -/
def choiceWithin (choice : (verbose : Bool) → Reading (List Width)) (isWhole : Bool) :
    (count : Nat) → (isStart verbose : Bool) → Reading (List Width)
  | 0, _, _ => refuse
  | count + 1, isStart, verbose => do
    let width ← sequenceWithin choice isStart ((← get).rest.length + 1) verbose {}
    if ← accept '|' then
      let flags := (← get).flags
      let verbose := if isWhole then flags.contains 'x' else verbose
      return width :: (← choiceWithin choice isWhole count false verbose)
    else return [width]

/-- The widths of the sequences between which there is a choice, in groups nested so deep. -/
def choice : (depth : Nat) → (isWhole verbose : Bool) → Reading (List Width)
  | 0, _, _ => refuse
  | depth + 1, isWhole, verbose => do
    choiceWithin (choice depth false) isWhole ((← get).rest.length + 1) isWhole verbose

/-- Does what was read leave nothing open? Nothing is left over, every group that a condition asks
for exists, and the flags for the whole can stand together: `t` rules out repetition. -/
def State.isComplete (s : State) : Bool :=
  s.rest.isEmpty && s.conditions.all (· ≤ s.groups.length) && canTurnOn s.flags &&
    !(s.flags.contains 't' && s.repeats)

/-- Is the text a well-formed regular expression? -/
def isWellFormed (text : List Char) : Bool :=
  match Piece.ofText? text with
  | none => false
  | some pieces =>
    match choice (pieces.length + 1) true false { rest := pieces } with
    | none => false
    | some (_, s) => s.isComplete

end DocComments.Regex
