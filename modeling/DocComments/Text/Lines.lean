/-!
# Physical lines

A text is cut at its line feeds. Carriage returns at the end of a line are not part of it.
-/

namespace DocComments.Text

/-- The pieces of a text between its line feeds; always at least one. -/
def splitLines : List Char → List (List Char)
  | [] => [[]]
  | c :: rest =>
    if c = '\n' then [] :: splitLines rest
    else match splitLines rest with
      | [] => [[c]]
      | line :: lines => (c :: line) :: lines

/-- The text without the carriage returns at its end. -/
def dropReturns (text : List Char) : List Char :=
  (text.reverse.dropWhile (· == '\r')).reverse

/-- The physical lines of a text. -/
def lines (text : String) : List String :=
  (splitLines text.toList).map fun line => String.ofList (dropReturns line)

/-- The text with every line break written as a line feed. -/
def unifyBreaks : List Char → List Char
  | [] => []
  | '\r' :: '\n' :: rest => '\n' :: unifyBreaks rest
  | '\r' :: rest => '\n' :: unifyBreaks rest
  | c :: rest => c :: unifyBreaks rest

end DocComments.Text
