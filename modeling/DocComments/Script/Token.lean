/-!
# Tokens of scripts
-/

namespace DocComments.Script

/-- What a token is. -/
inductive TokenKind where
  | endOfInput
  | identifier
  | keyword
  | boolean
  | null
  | number (octal : Bool)
  /-- A string as it is written, and whether it has an octal escape. -/
  | string (raw : String) (octal : Bool)
  /-- A piece of a template, and whether it opens and closes it. -/
  | template (opens closes : Bool)
  | regex
  | sign
deriving DecidableEq, Repr

/-- A token. Its line is the one it ends on. -/
structure Token where
  kind : TokenKind
  value : String
  start : Nat
  stop : Nat
  line : Nat
  /-- The offset where that line starts. -/
  lineStart : Nat
deriving DecidableEq, Repr

namespace Token

/-- Is the token this sign? -/
def isSign (sign : String) (token : Token) : Bool :=
  token.kind == .sign && token.value == sign

/-- Is the token this keyword? -/
def isKeyword (word : String) (token : Token) : Bool :=
  token.kind == .keyword && token.value == word

/-- Is the token this identifier, which only some places treat as a keyword? -/
def isContextual (word : String) (token : Token) : Bool :=
  token.kind == .identifier && token.value == word

/-- Is the token a string? -/
def isString (token : Token) : Bool :=
  match token.kind with
  | .string _ _ => true
  | _ => false

/-- Is the token an octal number, or a string with an octal escape? -/
def isOctal (token : Token) : Bool :=
  match token.kind with
  | .number octal | .string _ octal => octal
  | _ => false

/-- Can the token be the name of a property? -/
def isPropertyName (token : Token) : Bool :=
  match token.kind with
  | .identifier | .keyword | .boolean | .null => true
  | _ => false

/-- Can the token begin the key of a property? -/
def isPropertyKey (token : Token) : Bool :=
  match token.kind with
  | .number _ | .string _ _ => true
  | .sign => token.value == "["
  | _ => token.isPropertyName

/-- Does the token open a template? -/
def opensTemplate (token : Token) : Bool :=
  match token.kind with
  | .template opens _ => opens
  | _ => false

/-- What a message says of the token: nothing of an empty one and of zero. -/
def mention? (token : Token) : Option String :=
  let isZero := match token.kind with
    | .number _ => token.value == "0"
    | _ => false
  if token.value.isEmpty || isZero then none else some token.value

/-- Does the token assign? -/
def isAssignment (token : Token) : Bool :=
  token.kind == .sign &&
    ["=", "*=", "**=", "/=", "%=", "+=", "-=", "<<=", ">>=", ">>>=", "&=", "^=", "|="].contains
      token.value

end Token

/-- The words that are no names. -/
def keywords : List String :=
  ["if", "in", "do", "var", "for", "new", "try", "let", "this", "else", "case", "void", "with",
    "enum", "while", "break", "catch", "throw", "const", "yield", "class", "super", "return",
    "typeof", "delete", "switch", "export", "import", "default", "finally", "extends", "function",
    "continue", "debugger", "instanceof"]

/-- The keywords that some contexts forbid. -/
def futureWords : List String :=
  ["enum", "export", "import", "super"]

/-- The words that are no names in strict code. -/
def strictWords : List String :=
  ["implements", "interface", "package", "private", "protected", "public", "static", "yield",
    "let"]

/-- The names that strict code must not bind. -/
def restrictedNames : List String :=
  ["eval", "arguments"]

/-- The signs, longer ones first. -/
def signs : List String :=
  [">>>=", "...", "===", "!==", ">>>", "<<=", ">>=", "**=", "&&", "||", "==", "!=", "+=", "-=",
    "*=", "/=", "++", "--", "<<", ">>", "&=", "|=", "^=", "%=", "<=", ">=", "=>", "**", "(", ")",
    "\x7b", "\x7d", "[", "]", ";", ",", ".", ":", "?", "~", "<", ">", "=", "!", "+", "-", "*", "%",
    "&", "|", "^", "/"]

/-- How tightly a binary operator binds; zero for what is none. -/
def precedence (allowIn : Bool) (token : Token) : Nat :=
  match token.kind, token.value with
  | .sign, "||" => 1
  | .sign, "&&" => 2
  | .sign, "|" => 3
  | .sign, "^" => 4
  | .sign, "&" => 5
  | .sign, "==" | .sign, "!=" | .sign, "===" | .sign, "!==" => 6
  | .sign, "<" | .sign, ">" | .sign, "<=" | .sign, ">=" => 7
  | .sign, "<<" | .sign, ">>" | .sign, ">>>" => 8
  | .sign, "+" | .sign, "-" => 9
  | .sign, "*" | .sign, "/" | .sign, "%" => 11
  | .keyword, "instanceof" => 7
  | .keyword, "in" => if allowIn then 7 else 0
  | _, _ => 0

end DocComments.Script
