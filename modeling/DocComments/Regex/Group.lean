import DocComments.Regex.Item
import DocComments.Text.Blank

/-!
# Groups of regular expressions

What stands in parentheses. The start of a group tells what it is for: to be referred to, to look at
what follows or came before, to choose by a condition, or to turn flags on and off.
-/

namespace DocComments.Regex

open Reading

/-! ## Names and numbers of groups -/

/-- The characters that count as letters or marks, but not in the name of a group. -/
def isBarred (c : Char) : Bool :=
  let n := c.toNat
  n == 0x24 || n == 0x37a || n == 0x200c || n == 0x200d || n == 0x2e2f || n == 0x309b ||
    n == 0x309c || (0xfc5e ≤ n && n ≤ 0xfc63) || n == 0xfdfa || n == 0xfdfb ||
    (0xfe70 ≤ n && n ≤ 0xfe7e && n % 2 == 0)

/-- The characters that cannot begin the name of a group, though they can continue it. -/
def isContinuing (c : Char) : Bool :=
  c == '\u0e33' || c == '\u0eb3' || c == '\uff9e' || c == '\uff9f'

/-- Is it the name of a group? -/
def isGroupName (name : List Nat) : Bool :=
  match name.map Script.charOfCode with
  | [] => false
  | c :: rest =>
    Script.isNameStart c && !isBarred c && !isContinuing c &&
      rest.all fun c => Script.isNamePart c && !isBarred c

/-- The text without blanks around it. -/
def trimBlanks (text : List Char) : List Char :=
  ((text.dropWhile Text.isBlank).reverse.dropWhile Text.isBlank).reverse

/-- The digits of a number, in which single underscores may separate digits. -/
def separatedDigits? : List Char → Option (List Char)
  | [] => none
  | [c] => if Text.isDigit c then some [c] else none
  | c :: '_' :: rest =>
    if Text.isDigit c then (separatedDigits? rest).map (c :: ·) else none
  | c :: rest => if Text.isDigit c then (separatedDigits? rest).map (c :: ·) else none

/-- The number of a group that a condition asks for: a positive number, perhaps with a sign. -/
def groupNumber? (text : List Nat) : Option Nat := do
  let text := trimBlanks (text.map Script.charOfCode)
  let digits ← separatedDigits? (if text.head? == some '+' then text.drop 1 else text)
  let number := Text.numeral digits
  if number = 0 then none else some number

/-- The number of the group that a condition asks for by its name or number. -/
def conditionGroup (text : List Nat) : Reading Nat := do
  if isGroupName text then groupNamed text
  else
    match groupNumber? text with
    | some number =>
      modify fun s => { s with conditions := number :: s.conditions }
      return number
    | none => refuse

/-! ## Flags -/

/-- The letters of flags. -/
def flagLetters : List Char :=
  "aiLmstux".toList

/-- Takes letters of flags. -/
def takeFlags : Reading (List Char) := do
  takeUpTo (← get).rest.length flagLetters.contains

/-- Can these flags be turned on? One kind of text rules out the other. -/
def canTurnOn (flags : List Char) : Bool :=
  !flags.contains 'L' && !(flags.contains 'a' && flags.contains 'u')

/-- Can these flags be turned off? There must be some, and no kind of text is among them. -/
def canTurnOff (flags : List Char) : Bool :=
  !flags.isEmpty && !flags.any "aLu".toList.contains

/-! ## Groups -/

/-- What the start of a group tells of it. -/
inductive GroupHead where
  /-- What it matches can be referred to, perhaps by a name. -/
  | capture (name : Option (List Nat))
  /-- It only groups, and turns flags on and off. -/
  | plain (on off : List Char)
  /-- It looks at what follows, or at what came before. -/
  | look (behind : Bool)
  /-- It chooses by whether a group took part. -/
  | condition (group : Nat)
  /-- It matches what a group matched. -/
  | reference (group : Nat)
  /-- It turns flags on for the whole. -/
  | flags (on : List Char)
  | comment

/-- The start of a group that may turn flags on and off. -/
def flagHead : Reading GroupHead := do
  let on ← takeFlags
  require (canTurnOn on)
  if ← accept ')' then
    require !on.isEmpty
    return .flags on
  else
    let off ←
      if ← accept '-' then
        let off ← takeFlags
        require (canTurnOff off)
        pure off
      else pure []
    expect ':'
    require (!(on ++ off).contains 't' && !off.any on.contains)
    return .plain on off

/-- The start of a group that has a name or refers to one by its name. -/
def namedHead : Reading GroupHead := do
  if ← accept '<' then
    let name ← textUntil '>'
    require (isGroupName name)
    return .capture (some name)
  else
    expect '='
    return .reference (← groupNamed (← textUntil ')'))

/-- The start of a group that looks at what came before. -/
def behindHead : Reading GroupHead := do
  let piece ← next
  require (piece.isChar '=' || piece.isChar '!')
  return .look true

/-- Passes over a comment. -/
def skipComment : Reading GroupHead := do
  modify fun s => { s with rest := s.rest.dropWhile (!·.isChar ')') }
  expect ')'
  return .comment

/-- The start of a group, whose parenthesis is already taken. -/
def groupHead : Reading GroupHead := do
  if ← accept '?' then
    match (← peek?).map Piece.codes with
    | some [code] =>
      match Script.charOfCode code with
      | 'P' => skip; namedHead
      | '#' => skip; skipComment
      | '=' | '!' => skip; return .look false
      | '<' => skip; behindHead
      | '(' => skip; return .condition (← conditionGroup (← textUntil ')'))
      | '>' => skip; return .plain [] []
      | _ => flagHead
    | _ => refuse
  else return .capture none

/-- What a group encloses, to its closing parenthesis. -/
def enclosed (choice : Reading (List Width)) : Reading Width := do
  let widths ← choice
  expect ')'
  return .ofChoice widths

/-- What looks at what came before; it must have a fixed width. -/
def enclosedBehind (choice : Reading (List Width)) : Reading Unit := do
  let outer := (← get).behind
  modify fun s => { s with behind := s.behind.or (some s.groups.length) }
  require (← enclosed choice).isFixed
  modify ({ · with behind := outer })

/-- The item that a group is, from what its start tells; some groups are none. The choices in it
are read with or without blanks and comments. -/
def groupItem (choice : (verbose : Bool) → Reading (List Width)) (verbose : Bool) :
    GroupHead → Reading (Option Item)
  | .capture name => do
    let number ← openGroup name
    let width ← enclosed (choice verbose)
    closeGroup number width
    return some (.plain width)
  | .plain on off => do
    let verbose := (verbose || on.contains 'x') && !off.contains 'x'
    return some (.plain (← enclosed (choice verbose)))
  | .look behind => do
    if behind then enclosedBehind (choice verbose)
    else
      let _ ← enclosed (choice verbose)
    return some (.plain .zero)
  | .condition group => do
    requireBefore group
    let widths ← choice verbose
    require (widths.length ≤ 2)
    expect ')'
    return some (.plain (.ofChoice (if widths.length = 2 then widths else .zero :: widths)))
  | .reference group => return some (.plain (← reference group))
  | .flags _ | .comment => return none

end DocComments.Regex
