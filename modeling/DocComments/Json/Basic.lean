import DocComments.Decimal.Layout
import DocComments.Text.Quoted

/-!
# JSON documents

The values of a JSON document with its fields in order, and the text of a document: two spaces a
level, one item a line, characters beyond ASCII as themselves.
-/

namespace DocComments

/-- A JSON value. -/
inductive Json where
  | bool (value : Bool)
  | int (value : Int)
  | double (value : Decimal.Binary64)
  | text (value : String)
  | array (items : List Json)
  | object (fields : List (String × Json))

namespace Json

/-- One character of a JSON string. -/
def escapedChar (c : Char) : List Char :=
  if c = '\x22' ∨ c = '\\' then ['\\', c]
  else if c = '\n' then ['\\', 'n']
  else if c = '\r' then ['\\', 'r']
  else if c = '\t' then ['\\', 't']
  else if c = '\x08' then ['\\', 'b']
  else if c = '\x0c' then ['\\', 'f']
  else if c.toNat < 32 then '\\' :: 'u' :: Text.hexDigits 4 c.toNat
  else [c]

/-- A JSON string. -/
def quoted (text : String) : List Char :=
  '\x22' :: text.toList.flatMap escapedChar ++ ['\x22']

/-- A whole number. -/
def numeral (value : Int) : List Char :=
  let digits := Nat.toDigits 10 value.natAbs
  if value < 0 then '-' :: digits else digits

/-- The start of a line at a level. -/
def newline (level : Nat) : List Char :=
  '\n' :: List.replicate (2 * level) ' '

mutual

/-- The characters of a value that stands at a level. -/
def chars (level : Nat) : Json → List Char
  | bool value => (if value then "true" else "false").toList
  | int value => numeral value
  | double value => value.text.toList
  | text value => quoted value
  | array [] => ['[', ']']
  | array (item :: items) =>
    '[' :: newline (level + 1) ++ chars (level + 1) item ++ itemChars (level + 1) items ++
      newline level ++ [']']
  | object [] => ['\x7b', '\x7d']
  | object (field :: fields) =>
    '\x7b' :: newline (level + 1) ++ fieldChars (level + 1) field ++
      fieldsChars (level + 1) fields ++ newline level ++ ['\x7d']

/-- The items of an array after the first. -/
def itemChars (level : Nat) : List Json → List Char
  | [] => []
  | item :: items => ',' :: newline level ++ chars level item ++ itemChars level items

/-- A field of an object. -/
def fieldChars (level : Nat) : String × Json → List Char
  | (name, value) => quoted name ++ ':' :: ' ' :: chars level value

/-- The fields of an object after the first. -/
def fieldsChars (level : Nat) : List (String × Json) → List Char
  | [] => []
  | field :: fields => ',' :: newline level ++ fieldChars level field ++ fieldsChars level fields

end

/-- The text of a document. -/
def render (document : Json) : String :=
  String.ofList (document.chars 0)

end Json

end DocComments
