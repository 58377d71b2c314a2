import DocComments.Text.Category
import DocComments.Text.Digit

/-!
# Characters of scripts

Which characters separate tokens, end a line, or belong to a name.
-/

namespace DocComments.Script

/-- Does the character end a line? -/
def isLineBreak (c : Char) : Bool :=
  c == '\n' || c == '\r' || c == '\u2028' || c == '\u2029'

/-- Does the character separate tokens without ending a line? -/
def isSpace (c : Char) : Bool :=
  let n := c.toNat
  n == 0x09 || n == 0x0b || n == 0x0c || n == 0x20 || n == 0xa0 || n == 0x1680 || n == 0x180e ||
    (0x2000 ≤ n && n ≤ 0x200a) || n == 0x202f || n == 0x205f || n == 0x3000 || n == 0xfeff

/-- Can the character begin a name? -/
def isNameStart (c : Char) : Bool :=
  if c.toNat < 128 then c.isAlpha || c == '$' || c == '_'
  else Text.Category.letters.contains c || Text.Category.letterNumbers.contains c ||
    c == '\u2118' || c == '\u212e' || c == '\u309b' || c == '\u309c' || c == '\u1885' ||
    c == '\u1886'

/-- Can the character continue a name? -/
def isNamePart (c : Char) : Bool :=
  if c.toNat < 128 then c.isAlphanum || c == '$' || c == '_'
  else isNameStart c || Text.Category.marks.contains c || Text.isDigit c ||
    Text.Category.connectors.contains c || c == '\u00b7' || c == '\u0387' ||
    (0x1369 ≤ c.toNat && c.toNat ≤ 0x1371) || c == '\u19da' || c == '\u200c' || c == '\u200d'

/-- Is the character an octal digit? -/
def isOctal (c : Char) : Bool :=
  '0' ≤ c && c ≤ '7'

/-- The value of a hexadecimal digit. -/
def hexValue? (c : Char) : Option Nat :=
  if c.isDigit then some (c.toNat - '0'.toNat)
  else if 'a' ≤ c && c ≤ 'f' then some (c.toNat - 'a'.toNat + 10)
  else if 'A' ≤ c && c ≤ 'F' then some (c.toNat - 'A'.toNat + 10)
  else none

/-- Is the character a hexadecimal digit? -/
def isHex (c : Char) : Bool :=
  (hexValue? c).isSome

/-- The number that digits of a base write. -/
def numberOfDigits (base : Nat) (digits : List Char) : Nat :=
  digits.foldl (fun n c => base * n + (hexValue? c).getD 0) 0

/-- The character with this code, or the replacement character if there is none. -/
def charOfCode (code : Nat) : Char :=
  if code.isValidChar then Char.ofNat code else '\ufffd'

/-- Is it the first half of a surrogate pair? -/
def isHighSurrogate (code : Nat) : Bool :=
  0xd800 ≤ code && code ≤ 0xdbff

/-- Is it the second half of a surrogate pair? -/
def isLowSurrogate (code : Nat) : Bool :=
  0xdc00 ≤ code && code ≤ 0xdfff

/-- The characters with these codes; a surrogate pair is one character. -/
def charsOfCodes : List Nat → List Char
  | high :: low :: rest =>
    if isHighSurrogate high && isLowSurrogate low then
      charOfCode (0x10000 + 0x400 * (high - 0xd800) + (low - 0xdc00)) :: charsOfCodes rest
    else charOfCode high :: charsOfCodes (low :: rest)
  | codes => codes.map charOfCode

end DocComments.Script
