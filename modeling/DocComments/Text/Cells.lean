import DocComments.Text.Category

/-!
# Cells of a terminal

How wide a character is on a terminal, and how a line looks there: tabs reach to the next column
of eight, and characters that would move the cursor otherwise are dropped.
-/

namespace DocComments.Text

/-- The characters that take two cells. -/
def wide : CodeSet where
  runs := [
    4352, 96, 4538, 2, 13, 2, 190, 4, 3, 1, 2, 1, 521, 2, 21, 2, 50, 12, 43, 1, 19, 1, 13, 1, 8,
    2, 17, 2, 5, 2, 8, 1, 5, 1, 21, 1, 7, 2, 1, 1, 4, 1, 2, 1, 7, 1, 4, 2, 28, 1, 35, 1, 1, 1, 4,
    3, 1, 1, 61, 3, 24, 1, 14, 1, 859, 2, 51, 1, 4, 1, 810, 26, 1, 89, 12, 214, 26, 12, 4, 63, 2,
    86, 2, 103, 5, 43, 1, 94, 1, 84, 12, 47, 1, 40, 8, 7024, 64, 22157, 3, 55, 1177, 29, 643,
    11172, 8540, 366, 2, 106, 822, 10, 22, 35, 1, 19, 1, 4, 149, 96, 127, 7, 28665, 5, 11, 2, 14,
    6136, 8, 1238, 42, 9, 8935, 4, 1, 7, 1, 2, 1, 291, 45, 3, 17, 4, 8, 396, 15624, 1, 202, 1,
    190, 1, 2, 10, 101, 3, 13, 44, 4, 9, 7, 2, 14, 6, 154, 33, 12, 9, 1, 70, 1, 22, 12, 43, 4, 5,
    12, 17, 3, 1, 3, 71, 1, 1, 1, 187, 2, 63, 13, 4, 1, 24, 18, 1, 26, 2, 13, 1, 86, 85, 48, 70,
    6, 1, 3, 3, 2, 3, 5, 3, 11, 2, 7, 9, 227, 12, 4, 1, 283, 47, 1, 10, 1, 185, 112, 5, 3, 5, 3,
    7, 9, 29, 3, 11, 5, 6, 10, 10, 6, 8, 8, 7, 1289, 131070]

/-- The characters that take no cell and are no marks: controls, format characters, separators of
lines and paragraphs, the later parts of Hangul syllables, and modifiers of emoji. -/
def unseen : CodeSet where
  runs := [
    0, 32, 95, 33, 13, 1, 1362, 6, 22, 1, 192, 1, 49, 1, 384, 2, 80, 1, 2173, 160, 1550, 1,
    2044, 5, 24, 7, 49, 5, 1, 10, 46912, 23, 4, 49, 9987, 1, 249, 3, 4289, 1, 15, 1, 9058, 9,
    34919, 4, 5327, 8, 8832, 5, 789505, 1, 30, 96]

/-- The number of cells that a character takes. -/
def cells (c : Char) : Nat :=
  if ' ' ≤ c && c ≤ '~' then 1
  else if unseen.contains c || Category.marks.contains c then 0
  else if wide.contains c then 2
  else 1

/-- Does a terminal show nothing for the character: bell, backspace, vertical tab, form feed,
carriage return? -/
def isSilent (c : Char) : Bool :=
  c == '\x07' || c == '\x08' || c == '\x0b' || c == '\x0c' || c == '\r'

/-- The line with its tabs filled up by spaces, from a column on. -/
def expandTabs (column : Nat) : List Char → List Char
  | [] => []
  | c :: rest =>
    if c = '\t' then
      let count := 8 - column % 8
      List.replicate count ' ' ++ expandTabs (column + count) rest
    else c :: expandTabs (column + cells c) rest

/-- The line as a terminal shows it. -/
def onTerminal (line : List Char) : List Char :=
  expandTabs 0 (line.filter fun c => !isSilent c)

end DocComments.Text
