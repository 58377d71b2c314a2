import DocComments.Regex.Reading
import DocComments.Text.CharName

/-!
# Escapes and sets

What a backslash with a character behind it stands for, and sets of characters in brackets.
-/

namespace DocComments.Regex

open Reading
open Script (isHex isOctal numberOfDigits)

/-! ## Escapes for one character -/

/-- The code point that a letter behind a backslash stands for. -/
def letterCode? (c : Char) : Option Nat :=
  match c with
  | 'a' => some 0x07
  | 't' => some 0x09
  | 'n' => some 0x0a
  | 'v' => some 0x0b
  | 'f' => some 0x0c
  | 'r' => some 0x0d
  | _ => none

/-- The number of hexadecimal digits that must follow a letter behind a backslash. -/
def hexCount? (c : Char) : Option Nat :=
  match c with
  | 'x' => some 2
  | 'u' => some 4
  | 'U' => some 8
  | _ => none

/-- Is it a letter behind a backslash that stands for a class of characters? -/
def isClassLetter (c : Char) : Bool :=
  "dDsSwW".toList.contains c

/-- Is it a letter behind a backslash that stands for a place between characters? -/
def isAnchorLetter (c : Char) : Bool :=
  "AbBZ".toList.contains c

/-- The code point that so many hexadecimal digits write. -/
def hexCode (count : Nat) : Reading Nat := do
  let digits ← takeUpTo count isHex
  let code := numberOfDigits 16 digits
  require (digits.length == count && code ≤ 0x10ffff)
  return code

/-- The code point of the character whose name stands in braces. -/
def namedCode : Reading Nat := do
  expect '\x7b'
  let name ← textUntil '\x7d'
  match Text.codeOfName? (name.map Script.charOfCode) with
  | some code => return code
  | none => refuse

/-- The code point of an escape that means the same everywhere. Letters and digits without a
meaning are refused; all else stands for itself. -/
def escapedCode (code : Nat) : Reading Nat := do
  let c := Script.charOfCode code
  match letterCode? c, hexCount? c with
  | some code, _ => return code
  | none, some count => hexCode count
  | none, none =>
    if c == 'N' then namedCode
    else
      require !c.isAlphanum
      return code

/-! ## Sets -/

/-- A member of a set: a code point, or a class of characters. -/
inductive Member where
  | code (code : Nat)
  | characters
deriving DecidableEq, Repr

/-- The member that a piece begins. -/
def setMember : Piece → Reading Member
  | .plain code => return .code code
  | .escaped code => do
    let c := Script.charOfCode code
    if isClassLetter c then return .characters
    else if c == 'b' then return .code 0x08
    else if isOctal c then
      let code := numberOfDigits 8 (c :: (← takeUpTo 2 isOctal))
      require (code ≤ 0o377)
      return .code code
    else return .code (← escapedCode code)

/-- Reads a set to its closing bracket, in at most so many steps. A bracket that comes first is a
member. The ends of a range are code points in order. -/
def setWithin : (count : Nat) → (isEmpty : Bool) → Reading Unit
  | 0, _ => refuse
  | count + 1, isEmpty => do
    let piece ← next
    if piece.isChar ']' && !isEmpty then return ()
    else
      let low ← setMember piece
      if ← accept '-' then
        let piece ← next
        if piece.isChar ']' then return ()
        else
          match low, ← setMember piece with
          | .code low, .code high => require (low ≤ high)
          | _, _ => refuse
          setWithin count false
      else setWithin count false

/-- Reads a set whose opening bracket is already taken. -/
def characterSet : Reading Unit := do
  let _ ← accept '^'
  setWithin ((← get).rest.length + 1) true

end DocComments.Regex
