import DocComments.Source.Node

/-!
# Attaching comments to nodes

While a script is read, comments are collected in two lists, and every node that is finished picks
up the comments that stand right before it, right after it, or inside it if it is an empty block.
A node that encloses the last finished ones takes over their leading comments, and a node that ends
with the last finished one takes over its trailing comments.

Finished nodes are numbered. `Trail.attach` replaces the numbers in a tree by the comments that the
nodes ended up with.
-/

namespace DocComments.Script

/-- A tree of nodes, each with the number under which it was finished. -/
abbrev Tree := Node Nat

/-- The part of the script that a comment covers. -/
structure Entry where
  start : Nat
  stop : Nat
deriving DecidableEq, Repr

/-- The comments of a finished node. -/
structure Catch where
  leading : List Entry := []
  trailing : List Entry := []
  inner : List Entry := []

/-- The comments so far, and what the finished nodes picked up. -/
structure Trail where
  /-- All comments, the last one first. -/
  comments : List RawComment := []
  /-- The comments that no node leads with yet. -/
  leading : List Entry := []
  /-- The comments that no node ends with yet. -/
  trailing : List Entry := []
  /-- The finished nodes that no other node encloses yet, the last one first: number and start. -/
  stack : List (Nat × Nat) := []
  /-- The comments of all finished nodes, by number. -/
  catches : Array Catch := #[]

namespace Trail

/-- Adds a comment. -/
def addComment (trail : Trail) (comment : RawComment) : Trail :=
  let entry : Entry := ⟨comment.span.start, comment.span.stop⟩
  { trail with
    comments := comment :: trail.comments
    leading := trail.leading ++ [entry]
    trailing := trail.trailing ++ [entry] }

/-- Takes the comments inside an empty block that ends at `stop`. They leave both lists, by the
places they have among the leading ones. -/
def takeInner (trail : Trail) (stop : Nat) : List Entry × Trail :=
  let isInner (entry : Entry) : Bool := entry.start ≤ stop
  let taken := trail.leading.map isInner
  let kept := trail.trailing.zipIdx.filter fun (_, i) => !(taken[i]?.getD false)
  (trail.leading.filter isInner,
    { trail with
      leading := trail.leading.filter fun entry => !isInner entry
      trailing := kept.map (·.1) })

/-- Takes the comments after a node that ends at `stop`: new ones if any are waiting, else those of
the last finished node. -/
def takeTrailing (trail : Trail) (stop : Nat) : List Entry × Trail :=
  if trail.trailing.isEmpty then
    match trail.stack with
    | [] => ([], trail)
    | (number, _) :: _ =>
      match (trail.catches[number]?.getD {}).trailing with
      | first :: more =>
        if stop ≤ first.start then
          (first :: more,
            { trail with catches := trail.catches.modify number ({ · with trailing := [] }) })
        else ([], trail)
      | [] => ([], trail)
  else
    let taken := trail.trailing.filter fun entry => stop ≤ entry.start
    (taken, if taken.isEmpty then trail else { trail with trailing := [] })

/-- Takes the comments before a node that starts at `start`: from the first finished node that it
encloses, or from the waiting ones if it encloses none. -/
def takeLeading (trail : Trail) (start : Nat) : List Entry × Trail :=
  let enclosed := trail.stack.takeWhile fun (_, own) => start ≤ own
  let trail := { trail with stack := trail.stack.drop enclosed.length }
  match enclosed.getLast? with
  | some (number, _) =>
    let isBefore (entry : Entry) : Bool := entry.stop ≤ start
    let own := (trail.catches[number]?.getD {}).leading
    (own.filter isBefore,
      { trail with
        catches := trail.catches.modify number
          ({ · with leading := own.filter fun entry => !isBefore entry }) })
  | none =>
    let isBefore (entry : Entry) : Bool := entry.start ≤ start
    (trail.leading.filter isBefore,
      { trail with leading := trail.leading.filter fun entry => !isBefore entry })

/-- Finishes a node; its number is the count of the nodes finished before. -/
def finish (trail : Trail) (emptyBlock : Bool) (start stop : Nat) : Trail :=
  let (inner, trail) := if emptyBlock then trail.takeInner stop else ([], trail)
  let (trailing, trail) := trail.takeTrailing stop
  let (leading, trail) := trail.takeLeading start
  { trail with
    stack := (trail.catches.size, start) :: trail.stack
    catches := trail.catches.push ⟨leading, trailing, inner⟩ }

/-- Numbers a node that picks up no comments. -/
def pass (trail : Trail) : Trail :=
  { trail with catches := trail.catches.push {} }

/-- The comments that the node with this number ended up with. -/
def attached (trail : Trail) (number : Nat) : Attached :=
  let own := trail.catches[number]?.getD {}
  { leading := own.leading.map (·.start)
    trailing := own.trailing.map (·.start)
    inner := own.inner.map (·.start) }

mutual

/-- The tree with the comments of its nodes. -/
def attach (trail : Trail) : Tree → Node Attached
  | ⟨data, number, fields⟩ => ⟨data, trail.attached number, attachFields trail fields⟩

/-- The fields of a node with the comments of their nodes. -/
def attachFields (trail : Trail) :
    List (String × Slot Tree) → List (String × Slot (Node Attached))
  | [] => []
  | field :: fields => attachField trail field :: attachFields trail fields

/-- A field with the comments of its nodes. -/
def attachField (trail : Trail) : String × Slot Tree → String × Slot (Node Attached)
  | (label, slot) => (label, attachSlot trail slot)

/-- What a field holds with the comments of its nodes. -/
def attachSlot (trail : Trail) : Slot Tree → Slot (Node Attached)
  | .one tree => .one (attach trail tree)
  | .many trees => .many (attachList trail trees)

/-- Trees with the comments of their nodes. -/
def attachList (trail : Trail) : List Tree → List (Node Attached)
  | [] => []
  | tree :: trees => attach trail tree :: attachList trail trees

end

end Trail

end DocComments.Script
