import DocComments.Decimal.Shortest

/-!
# Number text

How a floating-point number is written: positionally while the decimal point stands within
sixteen places after the first digit and four zeros before it, with an exponent otherwise. A
positional number keeps a fraction, `.0` if need be; an exponent has a sign and two digits at least.
-/

namespace DocComments.Decimal

/-- The digits with the decimal point where it belongs. -/
def positional (d : Digits) : String :=
  let count : Int := d.digits.length
  if d.point ≤ 0 then
    "0." ++ String.ofList (List.replicate (-d.point).toNat '0' ++ d.digits)
  else if count ≤ d.point then
    String.ofList (d.digits ++ List.replicate (d.point - count).toNat '0') ++ ".0"
  else
    String.ofList (d.digits.take d.point.toNat) ++ "." ++
      String.ofList (d.digits.drop d.point.toNat)

/-- The digits with one place before the point and a power of ten. -/
def scientific (d : Digits) : String :=
  let exponent := d.point - 1
  let places := Nat.toDigits 10 exponent.natAbs
  let padded := List.replicate (2 - places.length) '0' ++ places
  let fraction := d.digits.drop 1
  String.ofList (d.digits.take 1) ++
    (if fraction.isEmpty then "" else "." ++ String.ofList fraction) ++
    (if exponent < 0 then "e-" else "e+") ++ String.ofList padded

/-- The text of a floating-point number. -/
def Binary64.text (x : Binary64) : String :=
  let sign := if x.isNegative then "-" else ""
  if !x.isFinite then
    if x.fractionBits = 0 then sign ++ "Infinity" else "NaN"
  else if x.parts.1 = 0 then sign ++ "0.0"
  else
    let d := shortest x
    sign ++ if -4 < d.point ∧ d.point ≤ 16 then positional d else scientific d

end DocComments.Decimal
