import DocComments.Decimal.Layout
import DocComments.Script.Chars

/-!
# The numbers of scripts

A number is written in decimal, perhaps with a fraction and an exponent, or in hexadecimal, octal or
binary behind a letter, or in octal behind a mere zero. Decimal numbers are rounded to the 64-bit
binary format; the others are exact.
-/

namespace DocComments.Script

/-- The value of a decimal number. -/
def decimalValue (text : List Char) : Decimal.Binary64 :=
  let whole := text.takeWhile Char.isDigit
  let rest := text.drop whole.length
  let fraction := if rest.head? == some '.' then (rest.drop 1).takeWhile Char.isDigit else []
  let exponent := (text.dropWhile fun c => c.isDigit || c == '.').drop 1
  let digits := exponent.dropWhile fun c => c == '+' || c == '-'
  let power : Int := numberOfDigits 10 digits
  .ofScientific (numberOfDigits 10 (whole ++ fraction))
    ((if exponent.head? == some '-' then -power else power) - fraction.length)

/-- The text of a decimal number: a whole one has no fraction. -/
def decimalText (x : Decimal.Binary64) : String :=
  if !x.isFinite then "inf"
  else match x.whole? with
    | some n => toString n
    | none => x.text

/-- The text of a number, from how a script writes it. -/
def numberText (octal : Bool) (text : List Char) : String :=
  match text with
  | '0' :: c :: digits =>
    if c == 'x' || c == 'X' then toString (numberOfDigits 16 digits)
    else if c == 'o' || c == 'O' then toString (numberOfDigits 8 digits)
    else if c == 'b' || c == 'B' then toString (numberOfDigits 2 digits)
    else if octal then toString (numberOfDigits 8 (c :: digits))
    else decimalText (decimalValue text)
  | _ => decimalText (decimalValue text)

end DocComments.Script
