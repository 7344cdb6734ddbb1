/-!
# Blanks and words

Text is cut into words at blanks, the characters with the Unicode property `White_Space`. The
cutting walks the characters from the right, so one character in front of a text changes at most
its first word.
-/

namespace CaptureFilter.Text

/-- A character with the Unicode property `White_Space`. -/
def isBlank (c : Char) : Bool :=
  let n := c.toNat
  (0x09 ≤ n && n ≤ 0x0D) || n == 0x20 || n == 0x85 || n == 0xA0 || n == 0x1680 ||
    (0x2000 ≤ n && n ≤ 0x200A) || n == 0x2028 || n == 0x2029 || n == 0x202F || n == 0x205F ||
    n == 0x3000

/-- A text that is being cut from the right: the word that its first character stands in, which is
empty at a blank, and the words after that one. -/
structure Cut where
  word : List Char
  later : List (List Char)

/-- The words of a text that has been cut up to its first character. -/
def Cut.words (s : Cut) : List (List Char) :=
  if s.word = [] then s.later else s.word :: s.later

/-- Takes one more character in front of the text. -/
def Cut.push (c : Char) (s : Cut) : Cut :=
  if isBlank c then ⟨[], s.words⟩ else ⟨c :: s.word, s.later⟩

/-- The longest runs of characters that are not blank, in order. -/
def splitWords (cs : List Char) : List (List Char) :=
  (cs.foldr Cut.push ⟨[], []⟩).words

/-- The words of a text, in order. -/
def words (s : String) : List String :=
  (splitWords s.toList).map String.ofList

/-- A text without the blanks at its two ends. -/
def trim (s : String) : String :=
  String.ofList ((s.toList.dropWhile isBlank).reverse.dropWhile isBlank).reverse

/-- Words with one space between each two. -/
def unwords (ws : List String) : String :=
  String.intercalate " " ws

end CaptureFilter.Text
