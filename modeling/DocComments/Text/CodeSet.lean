/-!
# Sets of code points

A `CodeSet` lists a set of code points as alternating run lengths: so many code points outside,
so many inside, so many outside, and so on from zero. Everything after the last run is outside.
-/

namespace DocComments.Text

/-- A set of code points, written as the lengths of its gaps and runs in turn, a gap first. -/
structure CodeSet where
  runs : List Nat

namespace CodeSet

/-- Is the code point `n` in the set with these runs, counted from the start of the first gap? -/
def containsCode : List Nat → Nat → Bool
  | gap :: run :: rest, n =>
    if n < gap then false else if n < gap + run then true else containsCode rest (n - (gap + run))
  | _, _ => false

/-- Is the character in the set? -/
def contains (set : CodeSet) (c : Char) : Bool :=
  containsCode set.runs c.toNat

end CodeSet

end DocComments.Text
