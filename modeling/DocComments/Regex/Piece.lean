import DocComments.Script.Chars

/-!
# Pieces of a regular expression

A regular expression is read as code points. Escapes such as `\u0041` and `\u{41}` are resolved
first, wherever they stand. A code point past the basic plane that is written by an escape or by two
surrogates counts as `astral`, which stands for them all. What is left falls into pieces: code
points that stand for themselves, and code points behind a backslash.
-/

namespace DocComments.Regex

open Script (isHex isHighSurrogate isLowSurrogate numberOfDigits)

/-! ## Unicode escapes -/

/-- The code point that stands for all past the basic plane. -/
def astral : Nat := 0xffff

/-- The number that a Unicode escape at the start writes, and what follows the escape. -/
def unicodeEscape? : List Char → Option (Nat × List Char)
  | '\\' :: 'u' :: '\x7b' :: text =>
    let digits := text.takeWhile isHex
    match text.drop digits.length with
    | '\x7d' :: rest => if digits.isEmpty then none else some (numberOfDigits 16 digits, rest)
    | _ => none
  | '\\' :: 'u' :: text =>
    let digits := (text.take 4).takeWhile isHex
    if digits.length = 4 then some (numberOfDigits 16 digits, text.drop 4) else none
  | _ => none

/-- The code points of a text with its Unicode escapes resolved, in at most so many steps. There
are none if an escape writes a number that is no code point. -/
def resolveWithin : (count : Nat) → List Char → Option (List Nat)
  | 0, _ => some []
  | _, [] => some []
  | count + 1, c :: rest =>
    match unicodeEscape? (c :: rest) with
    | some (code, rest) =>
      if code > 0x10ffff then none
      else (resolveWithin count rest).map ((if code ≤ 0xffff then code else astral) :: ·)
    | none => (resolveWithin count rest).map (c.toNat :: ·)

/-- The code points with each surrogate pair joined to one. -/
def joinSurrogates : List Nat → List Nat
  | high :: low :: rest =>
    if isHighSurrogate high && isLowSurrogate low then astral :: joinSurrogates rest
    else high :: joinSurrogates (low :: rest)
  | codes => codes

/-! ## Pieces -/

/-- A code point that stands for itself, or one behind a backslash. -/
inductive Piece where
  | plain (code : Nat)
  | escaped (code : Nat)
deriving DecidableEq, Repr

namespace Piece

/-- Is the piece this character, without a backslash? -/
def isChar (c : Char) (piece : Piece) : Bool :=
  piece == .plain c.toNat

/-- The code points of the piece. -/
def codes : Piece → List Nat
  | .plain code => [code]
  | .escaped code => ['\\'.toNat, code]

/-- The pieces of a text, unless it ends with a single backslash. -/
def ofCodes? : List Nat → Option (List Piece)
  | [] => some []
  | [code] => if code = '\\'.toNat then none else some [.plain code]
  | code :: next :: rest =>
    if code = '\\'.toNat then (ofCodes? rest).map (.escaped next :: ·)
    else (ofCodes? (next :: rest)).map (.plain code :: ·)

/-- The pieces of a regular expression. -/
def ofText? (text : List Char) : Option (List Piece) :=
  (resolveWithin (text.length + 1) text).bind fun codes => ofCodes? (joinSurrogates codes)

end Piece

end DocComments.Regex
