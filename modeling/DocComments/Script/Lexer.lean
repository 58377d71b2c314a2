import DocComments.Regex.Pattern
import DocComments.Script.Numeral
import DocComments.Script.Scanner
import DocComments.Script.Token

/-!
# Tokens from characters

Names, numbers, strings, templates, regular expressions and signs. Escapes are resolved where the
value of a name or string matters.
-/

namespace DocComments.Script

namespace Scanner

/-- A token from `start` to the scanner. -/
def token (start : Scanner) (kind : TokenKind) (value : String) (s : Scanner) : Token :=
  { kind, value, start := start.index, stop := s.index, line := s.line, lineStart := s.lineStart }

/-- The text from `start` to the scanner. -/
def textFrom (start s : Scanner) : String :=
  String.ofList (start.rest.take (s.index - start.index))

/-! ## Escapes -/

/-- The number that exactly `count` hexadecimal digits write. -/
def fixedHex? (count : Nat) (s : Scanner) : Option (Nat × Scanner) :=
  let digits := (s.rest.take count).takeWhile isHex
  if digits.length = count then
    some (numberOfDigits 16 digits, s.advance count)
  else none

/-- The code between braces, the first of which is already passed. -/
def bracedCode (s : Scanner) : Except Fault (Nat × Scanner) :=
  let digits := s.rest.takeWhile isHex
  let code := numberOfDigits 16 digits
  let after := s.advance digits.length
  if digits.isEmpty || code > 0x10ffff || after.rest.head? != some '\x7d' then
    .error (s.fault .illegal)
  else .ok (code, after.advance 1)

/-! ## Names -/

/-- Reads the codes of a name on from the scanner, whose next character may be its first, in at most
so many steps. Escaped characters count like plain ones. -/
def nameWithin : (count : Nat) → (first : Bool) → Scanner → Except Fault (List Nat × Scanner)
  | 0, _, s => .ok ([], s)
  | count + 1, first, s =>
    match s.rest with
    | '\\' :: 'u' :: '\x7b' :: _ => do
      let (code, after) ← (s.advance 3).bracedCode
      let (more, after) ← nameWithin count false after
      return (code :: more, after)
    | '\\' :: 'u' :: _ =>
      match (s.advance 2).fixedHex? 4 with
      | none => .error (s.fault .illegal)
      | some (code, after) => do
        let c := charOfCode code
        if !(if first then isNameStart c else isNamePart c) then throw (s.fault .illegal)
        let (more, after) ← nameWithin count false after
        return (code :: more, after)
    | '\\' :: _ => .error (s.fault .illegal)
    | c :: _ =>
      if isNamePart c then do
        let (more, after) ← nameWithin count false (s.advance 1)
        return (c.toNat :: more, after)
      else .ok ([], s)
    | [] => .ok ([], s)

/-- What a word is. -/
def wordKind (word : String) : TokenKind :=
  if keywords.contains word then .keyword
  else if word = "null" then .null
  else if word = "true" ∨ word = "false" then .boolean
  else .identifier

/-- The name or keyword that comes next. A keyword must not be written with escapes. -/
def word (tolerant : Bool) (s : Scanner) : Except Fault (Token × Scanner) := do
  let (codes, after) ← nameWithin (s.rest.length + 1) true s
  let text := String.ofList (charsOfCodes codes)
  let kind := wordKind text
  if kind != .identifier && s.index + codes.length != after.index && !tolerant then
    throw (s.fault .escapedReservedWord)
  return (s.token kind text after, after)

/-! ## Numbers -/

/-- Can the character not stand right behind a number? -/
def joinsNumber (c : Char) : Bool :=
  isNameStart c || c == '\\'

/-- The length of digits of a kind, after `skip` characters, if there are some and nothing stands
right behind them that must not. -/
def radixLength? (skip : Nat) (isDigit : Char → Bool) (text : List Char) : Option Nat :=
  let digits := ((text.drop skip).takeWhile isDigit).length
  match text.drop (skip + digits) with
  | c :: _ => if digits = 0 || joinsNumber c || c.isDigit then none else some (skip + digits)
  | [] => if digits = 0 then none else some (skip + digits)

/-- The number of decimal digits at the start. -/
def decimals (text : List Char) : Nat :=
  (text.takeWhile Char.isDigit).length

/-- The length of the exponent at the start, zero if there is none; it must have digits. -/
def exponentLength? : List Char → Option Nat
  | c :: rest =>
    if c == 'e' || c == 'E' then
      let sign := match rest with
        | '+' :: _ | '-' :: _ => 1
        | _ => 0
      let digits := decimals (rest.drop sign)
      if digits = 0 then none else some (1 + sign + digits)
    else some 0
  | [] => some 0

/-- The length of the decimal number at the start. -/
def decimalLength? (text : List Char) : Option Nat := do
  let whole := decimals text
  let fraction := match text.drop whole with
    | '.' :: rest => 1 + decimals rest
    | _ => 0
  let exponent ← exponentLength? (text.drop (whole + fraction))
  let length := whole + fraction + exponent
  match text.drop length with
  | c :: _ => if joinsNumber c then none else some length
  | [] => some length

/-- The length of the number at the start, and whether it is octal by its leading zero alone. -/
def numberLength? (text : List Char) : Option (Nat × Bool) :=
  match text with
  | '0' :: c :: rest =>
    if c == 'x' || c == 'X' then (radixLength? 2 isHex text).map (·, false)
    else if c == 'b' || c == 'B' then
      (radixLength? 2 (fun d => d == '0' || d == '1') text).map (·, false)
    else if c == 'o' || c == 'O' then (radixLength? 2 isOctal text).map (·, false)
    else if isOctal c && !((rest.dropWhile isOctal).head?.any fun d => d == '8' || d == '9') then
      (radixLength? 1 isOctal text).map (·, true)
    else (decimalLength? text).map (·, false)
  | _ => (decimalLength? text).map (·, false)

/-- The number that comes next. -/
def number (s : Scanner) : Except Fault (Token × Scanner) :=
  match numberLength? s.rest with
  | none => .error (s.fault .illegal)
  | some (length, octal) =>
    let after := s.advance length
    .ok (s.token (.number octal) (numberText octal (s.rest.take length)) after, after)

/-! ## Strings and templates -/

/-- The code that a letter behind a backslash stands for. -/
def letterEscape? (c : Char) : Option Nat :=
  match c with
  | 'n' => some 0x0a
  | 'r' => some 0x0d
  | 't' => some 0x09
  | 'b' => some 0x08
  | 'f' => some 0x0c
  | 'v' => some 0x0b
  | _ => none

/-- The length of the octal escape at the start: up to three digits, if the first is small. -/
def octalLength (text : List Char) : Nat :=
  let most := if text.head?.any (· ≤ '3') then 3 else 2
  ((text.take most).takeWhile isOctal).length

/-- The escape behind a backslash in a string: its codes, whether it is octal, and the scanner
behind it. -/
def stringEscape (tolerant : Bool) (s : Scanner) : Except Fault (List Nat × Bool × Scanner) :=
  match s.rest with
  | [] => .ok ([], false, s)
  | c :: _ =>
    if isLineBreak c then .ok ([], false, s.passBreak)
    else match letterEscape? c with
    | some escaped => .ok ([escaped], false, s.advance 1)
    | none =>
      if c == 'u' then
        if (s.advance 1).rest.head? == some '\x7b' then do
          let (code, after) ← (s.advance 2).bracedCode
          return ([code], false, after)
        else match (s.advance 1).fixedHex? 4 with
          | some (code, after) => .ok ([code], false, after)
          | none => .error (s.fault .illegal)
      else if c == 'x' then
        match (s.advance 1).fixedHex? 2 with
        | some (code, after) => .ok ([code], false, after)
        | none => .error (s.fault .badHexEscape)
      else if c == '8' || c == '9' then
        if tolerant then .ok ([c.toNat], false, s.advance 1) else .error (s.fault .illegal)
      else if isOctal c then
        let length := octalLength s.rest
        let code := numberOfDigits 8 (s.rest.take length)
        .ok ([code], c != '0' || length > 1, s.advance length)
      else .ok ([c.toNat], false, s.advance 1)

/-- Reads a string to its closing quote, in at most so many steps: its codes, whether it has an
octal escape, and the scanner behind it. -/
def stringWithin (tolerant : Bool) (quote : Char) :
    (count : Nat) → Scanner → Except Fault (List Nat × Bool × Scanner)
  | 0, s => .error (s.fault .illegal)
  | count + 1, s =>
    match s.rest with
    | [] => .error (s.fault .illegal)
    | c :: _ =>
      if c == quote then .ok ([], false, s.advance 1)
      else if c == '\\' then do
        let (codes, octal, after) ← (s.advance 1).stringEscape tolerant
        let (more, octalLater, after) ← stringWithin tolerant quote count after
        return (codes ++ more, octal || octalLater, after)
      else if isLineBreak c then .error (s.fault .illegal)
      else do
        let (more, octal, after) ← stringWithin tolerant quote count (s.advance 1)
        return (c.toNat :: more, octal, after)

/-- The string that comes next. -/
def string (tolerant : Bool) (quote : Char) (s : Scanner) : Except Fault (Token × Scanner) := do
  let (codes, octal, after) ← stringWithin tolerant quote (s.rest.length + 1) (s.advance 1)
  let text := String.ofList (charsOfCodes codes)
  return (s.token (.string (s.textFrom after) octal) text after, after)

/-- Behind the escape in a template, whose backslash is already passed. -/
def templateEscape (s : Scanner) : Except Fault Scanner :=
  match s.rest with
  | [] => .ok s
  | c :: rest =>
    if isLineBreak c then .ok s.passBreak
    else if c == 'u' then
      if rest.head? == some '\x7b' then (s.advance 2).bracedCode.map (·.2)
      else .ok ((((s.advance 1).fixedHex? 4).map (·.2)).getD (s.advance 1))
    else if c == 'x' then
      match (s.advance 1).fixedHex? 2 with
      | some (_, after) => .ok after
      | none => .error (s.fault .badHexEscape)
    else if c == '0' && !(rest.head?.any Char.isDigit) then .ok (s.advance 1)
    else if isOctal c then .error (s.fault .octalInTemplate)
    else .ok (s.advance 1)

/-- Behind a piece of a template, and whether it closes the template, in at most so many steps. -/
def templateWithin : (count : Nat) → Scanner → Except Fault (Bool × Scanner)
  | 0, s => .error (s.fault .illegal)
  | count + 1, s =>
    match s.rest with
    | [] => .error (s.fault .illegal)
    | '\x60' :: _ => .ok (true, s.advance 1)
    | '$' :: '\x7b' :: _ => .ok (false, s.advance 2)
    | '\\' :: _ => do
      let after ← (s.advance 1).templateEscape
      templateWithin count after
    | c :: _ => templateWithin count (if isLineBreak c then s.passBreak else s.advance 1)

/-- The piece of a template that comes next; it opens the template if it starts with its mark, and
goes on after an expression otherwise. -/
def template (s : Scanner) : Except Fault (Token × Scanner) := do
  let opens := s.rest.head? == some '\x60'
  let (closes, after) ← templateWithin (s.rest.length + 1) (s.advance 1)
  let width := after.index - s.index - (if closes then 2 else 3)
  let text := String.ofList ((s.rest.drop 1).take width)
  let braces := match opens, closes with
    | true, false => true :: after.braces
    | false, true => after.braces.drop 1
    | _, _ => after.braces
  let after := { after with braces }
  return (s.token (.template opens closes) text after, after)

/-! ## Regular expressions -/

/-- Behind the closing slash of a regular expression, in at most so many steps. A slash within
brackets does not close it. -/
def regexWithin : (count : Nat) → (inClass : Bool) → Scanner → Except Fault Scanner
  | 0, _, s => .error (s.fault .unterminatedRegex)
  | count + 1, inClass, s =>
    match s.rest with
    | [] => .error (s.fault .unterminatedRegex)
    | '\\' :: c :: _ =>
      if isLineBreak c then .error (s.fault .unterminatedRegex)
      else regexWithin count inClass (s.advance 2)
    | c :: _ =>
      if isLineBreak c then .error (s.fault .unterminatedRegex)
      else if inClass then regexWithin count (c != ']') (s.advance 1)
      else if c == '/' then .ok (s.advance 1)
      else regexWithin count (c == '[') (s.advance 1)

/-- Behind the flags of a regular expression, in at most so many steps. An escape among them is a
fault unless faults are tolerated. -/
def flagsWithin (tolerant : Bool) : (count : Nat) → Scanner → Except Fault Scanner
  | 0, s => .ok s
  | count + 1, s =>
    match s.rest with
    | [] => .ok s
    | ['\\'] => .ok (s.advance 1)
    | '\\' :: 'u' :: _ =>
      let after := s.advance 2
      let after := ((after.fixedHex? 4).map (·.2)).getD after
      if tolerant then flagsWithin tolerant count after else .error (after.fault .illegal)
    | '\\' :: _ :: _ =>
      if tolerant then flagsWithin tolerant count (s.advance 1) else .error (s.fault .illegal)
    | c :: _ => if isNamePart c then flagsWithin tolerant count (s.advance 1) else .ok s

/-- The regular expression that comes next. It must be well formed unless faults are tolerated. -/
def regex (tolerant : Bool) (s : Scanner) : Except Fault (Token × Scanner) := do
  let body ← regexWithin (s.rest.length + 1) false (s.advance 1)
  let after ← flagsWithin tolerant (s.rest.length + 1) body
  let text := (s.rest.drop 1).take (body.index - s.index - 2)
  unless tolerant || Regex.isWellFormed text do throw (after.fault .malformedRegex)
  return (s.token .regex "" after, after)

/-! ## All tokens -/

/-- The sign that comes next. -/
def sign (s : Scanner) : Except Fault (Token × Scanner) :=
  match signs.find? s.startsWith with
  | none => .error (s.fault .illegal)
  | some text =>
    let braces := match text with
      | "\x7b" => false :: s.braces
      | "\x7d" => s.braces.drop 1
      | _ => s.braces
    let after := { s.advance text.length with braces }
    .ok (s.token .sign text after, after)

/-- The token that comes next. -/
def lex (tolerant : Bool) (s : Scanner) : Except Fault (Token × Scanner) :=
  match s.rest with
  | [] => .ok (s.token .endOfInput "" s, s)
  | c :: rest =>
    if isNameStart c || c == '\\' then s.word tolerant
    else if c == '\x22' || c == '\x27' then s.string tolerant c
    else if c.isDigit || (c == '.' && rest.head?.any Char.isDigit) then s.number
    else if c == '\x60' || (c == '\x7d' && s.braces.head? == some true) then s.template
    else s.sign

end Scanner

end DocComments.Script
