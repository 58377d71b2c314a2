import DocComments.Text.Category
import DocComments.Text.Digit

/-!
# Word characters

The characters that continue a word: letters, numbers of every kind, and the underscore.
-/

namespace DocComments.Text

/-- Can the character continue a word? -/
def isWordChar (c : Char) : Bool :=
  if c.toNat < 128 then c.isAlphanum || c == '_'
  else Category.letters.contains c || isDigit c || Category.letterNumbers.contains c ||
    Category.otherNumbers.contains c

end DocComments.Text
