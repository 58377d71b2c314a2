import DocComments.Regex.Escape

/-!
# Items of regular expressions

An item matches one character, or a place between characters, or it is the repetition of another
item. Sequences are made of items.
-/

namespace DocComments.Regex

open Reading

/-! ## Items -/

/-- An item of a sequence. Only a plain one can be repeated. -/
inductive Item where
  /-- A place between characters. -/
  | anchor
  /-- An item that is repeated already. -/
  | repetition (width : Width)
  | plain (width : Width)

/-- The width of an item. -/
def Item.width : Item → Width
  | anchor => .zero
  | repetition width | plain width => width

/-- A sequence of items: the width of all but the last, and the last. -/
structure Sequence where
  before : Width := .zero
  last : Option Item := none

namespace Sequence

/-- The width of a sequence. -/
def width (s : Sequence) : Width :=
  s.before.append ((s.last.map Item.width).getD .zero)

/-- The sequence with one more item. -/
def push (s : Sequence) (item : Item) : Sequence :=
  ⟨s.width, some item⟩

end Sequence

/-- The item that digits behind a backslash stand for: three octal digits write a character, one or
two digits refer to a group. -/
def numbered (first : Char) : Reading Item := do
  let second ← takeUpTo 1 Char.isDigit
  let digits := first :: second
  let third ← if second.length == 1 && digits.all Script.isOctal then takeUpTo 1 Script.isOctal
    else pure []
  if third.isEmpty then return .plain (← reference (Text.numeral digits))
  else
    require (Script.numberOfDigits 8 (digits ++ third) ≤ 0o377)
    return .plain .one

/-- The item that a backslash with a code point behind it begins. -/
def escape (code : Nat) : Reading Item := do
  let c := Script.charOfCode code
  if isClassLetter c then return .plain .one
  else if isAnchorLetter c then return .anchor
  else if c == '0' then
    let _ ← takeUpTo 2 Script.isOctal
    return .plain .one
  else if c.isDigit then numbered c
  else
    let _ ← escapedCode code
    return .plain .one

/-! ## Repetition -/

/-- How often an item is repeated, at least and at most. -/
structure Bounds where
  least : Nat
  most : Option Nat

/-- Numbers from here on are too large for a repetition. -/
def repetitionLimit : Nat := 0xffffffff

/-- Are the numbers small enough and in order? -/
def Bounds.isValid (b : Bounds) : Bool :=
  b.least < repetitionLimit && b.most.all fun most => most < repetitionLimit && b.least ≤ most

/-- The bounds in braces, the first of which is already taken. Braces without bounds are plain
characters, and nothing is taken. -/
def bracedBounds? : Reading (Option Bounds) := do
  let s ← get
  let all := s.rest.length
  let low ← takeUpTo all Char.isDigit
  let hasComma ← accept ','
  let high ← if hasComma then takeUpTo all Char.isDigit else pure low
  if (hasComma || !low.isEmpty) && (← accept '\x7d') then
    let most := if high.isEmpty then none else some (Text.numeral high)
    return some ⟨Text.numeral low, most⟩
  else
    set s
    return none

/-- The bounds that a sign of repetition gives. -/
def bounds? (c : Char) : Reading (Option Bounds) :=
  match c with
  | '?' => return some ⟨0, some 1⟩
  | '*' => return some ⟨0, none⟩
  | '+' => return some ⟨1, none⟩
  | '\x7b' => bracedBounds?
  | _ => return none

/-- Repeats the last item of a sequence. A further sign may tell how eagerly. -/
def repeatLast (bounds : Bounds) (s : Sequence) : Reading Sequence := do
  require bounds.isValid
  match s.last with
  | some (.plain width) =>
    unless ← accept '?' do
      let _ ← accept '+'
    modify ({ · with repeats := true })
    return { s with last := some (.repetition (width.times bounds.least bounds.most)) }
  | _ => refuse

end DocComments.Regex
