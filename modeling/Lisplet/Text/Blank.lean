import Lisplet.Text.Ranges

/-!
# Blank characters

The white space of Unicode together with the four separators U+001C to U+001F, and the two things
done with it: cutting it off both ends of a text, and splitting a text into the words between it.
-/

namespace Lisplet.Text

def blankRanges : Ranges :=
  [(0x9, 0xD), (0x1C, 0x20), (0x85, 0x85), (0xA0, 0xA0), (0x1680, 0x1680), (0x2000, 0x200A),
   (0x2028, 0x2029), (0x202F, 0x202F), (0x205F, 0x205F), (0x3000, 0x3000)]

def isBlank (c : Char) : Bool := inRanges blankRanges c

/-- the text without the characters of the class `p` at both ends -/
def trimBy (p : Char → Bool) (cs : List Char) : List Char :=
  ((cs.dropWhile p).reverse.dropWhile p).reverse

def trim (cs : List Char) : List Char := trimBy isBlank cs

/-! ## words -/

/-- puts a finished word in front of the others, unless it is empty -/
def consWord (w : List Char) (ws : List (List Char)) : List (List Char) :=
  if w.isEmpty then ws else w :: ws

/-- the words of a text; `w` is the word being read, last character first -/
def wordsFrom (w : List Char) : List Char → List (List Char)
  | [] => consWord w.reverse []
  | c :: cs => if isBlank c then consWord w.reverse (wordsFrom [] cs) else wordsFrom (c :: w) cs

/-- the longest runs of characters that are not white space, in order -/
def words (cs : List Char) : List (List Char) := wordsFrom [] cs

end Lisplet.Text
