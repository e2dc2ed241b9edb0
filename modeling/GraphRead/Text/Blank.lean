/-!
White space: the characters with the property of that name, and lines of text.
-/

namespace GraphRead.Text

/-- The code points of white space outside the range from tab to carriage return and the ranges
of `isBlank`. -/
def blankPoints : List Nat :=
  [0x20, 0x85, 0xA0, 0x1680, 0x2028, 0x2029, 0x202F, 0x205F, 0x3000]

/-- Whether a character is white space. -/
def isBlank (c : Char) : Bool :=
  (9 ≤ c.toNat && c.toNat ≤ 13) || (0x2000 ≤ c.toNat && c.toNat ≤ 0x200A) ||
    blankPoints.contains c.toNat

/-- Drops white space at both ends. -/
def trim (text : List Char) : List Char :=
  ((text.dropWhile isBlank).reverse.dropWhile isBlank).reverse

/-- The carriage return in front of a line feed belongs to the end of the line. -/
def dropReturn (reversed : List Char) : List Char :=
  match reversed with
  | '\r' :: rest => rest.reverse
  | line => line.reverse

/-- The lines of a text behind a line that has been read so far, backwards. -/
def linesFrom (reversed : List Char) : List Char → List (List Char)
  | [] => if reversed.isEmpty then [] else [reversed.reverse]
  | '\n' :: rest => dropReturn reversed :: linesFrom [] rest
  | c :: rest => linesFrom (c :: reversed) rest

/-- The lines of a text. A line feed ends a line, and what follows the last one is a line unless
it is empty. -/
def lines (text : List Char) : List (List Char) := linesFrom [] text

/-- Joins texts with a separator between them. -/
def join (separator : String) (parts : List String) : String := separator.intercalate parts

end GraphRead.Text
