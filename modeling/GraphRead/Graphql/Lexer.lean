import GraphRead.Graphql.Ast
import GraphRead.Text.Blank
import GraphRead.Text.Reader
import GraphRead.Uuid
/-!
The words of a GraphQL text: punctuation, names, numbers and strings, with their positions.

Blanks, commas, byte order marks and comments stand between words and mean nothing, but they move
the position on: a tab by eight columns, a line end to the next line.
-/

namespace GraphRead.Graphql

/-- A word of a text. Numbers and strings are words by their value. -/
inductive Token where
  | mark (c : Char)
  | spread
  | name (s : String)
  | int (i : Int64)
  | float (x : Binary64)
  | string (s : String)
  deriving DecidableEq, Repr

/-- A word where it stands. -/
structure PlacedToken where
  token : Token
  position : Position
  deriving DecidableEq, Repr

namespace Lexer

open Reader

/-! ### Between the words -/

/-- Whether a character ends a comment. -/
def endsComment (c : Char) : Bool := c = '\n' || c = '\r'

/-- The run of characters without meaning at the front of a text. -/
def ignoredRun (comment : Bool) : List Char → List Char
  | [] => []
  | c :: rest =>
    if comment then c :: ignoredRun (!endsComment c) rest
    else if c = '#' then c :: ignoredRun true rest
    else if c = ' ' || c = ',' || c = '\t' || c = '\n' || c = '\r' || c = '\ufeff' then
      c :: ignoredRun false rest
    else []

/-- The position behind a run of characters without meaning. -/
def pastIgnored (comment : Bool) (p : Position) : List Char → Position
  | [] => p
  | c :: rest =>
    if comment then
      if endsComment c then pastIgnored false ⟨p.line + 1, 1⟩ rest else pastIgnored true p rest
    else if c = '#' then pastIgnored true p rest
    else if c = '\n' then pastIgnored false ⟨p.line + 1, 1⟩ rest
    else if c = '\t' then pastIgnored false ⟨p.line, p.column + 8⟩ rest
    else if c = ' ' || c = ',' then pastIgnored false ⟨p.line, p.column + 1⟩ rest
    else pastIgnored false p rest

/-- Takes the characters without meaning. -/
def ignored : Reader Char (List Char) := fun input =>
  let run := ignoredRun false input
  some (run, input.drop run.length)

/-- The position behind the text of a word. -/
def pastWord (p : Position) : List Char → Position
  | [] => p
  | c :: rest => pastWord (if c = '\n' then ⟨p.line + 1, 1⟩ else ⟨p.line, p.column + 1⟩) rest

/-! ### Names and numbers -/

/-- Whether a name may start with a character. -/
def startsName (c : Char) : Bool :=
  c = '_' || ('a' ≤ c && c ≤ 'z') || ('A' ≤ c && c ≤ 'Z')

/-- Whether a character may stand in a name. -/
def inName (c : Char) : Bool := startsName c || Digits.isDigit c

/-- The punctuation of one character. -/
def isMark (c : Char) : Bool := "()[]\x7b\x7d!$:=@|&".toList.contains c

/-- Whether a character ends the run of a number. -/
def endsNumber (c : Char) : Bool := isMark c || " \n\r\t,#".toList.contains c

/-- An integer without leading zeros, as a sign and digits. -/
def wholeDigits : Reader Char (Bool × List Char) := do
  let minus ← opt (satisfy (· = '-'))
  let digits ← many1 (satisfy Digits.isDigit)
  if digits.head? = some '0' ∧ digits.length ≠ 1 then refuse else return (minus.isSome, digits)

/-- The digits of an exponent. Without a sign the first of them is from one to eight. -/
def exponent : Reader Char Int := do
  let _ ← satisfy fun c => c = 'e' || c = 'E'
  let sign ← opt (satisfy fun c => c = '+' || c = '-')
  let digits ← many1 (satisfy Digits.isDigit)
  if sign.isNone ∧ (digits.head? = some '0' ∨ digits.head? = some '9') then refuse
  else return if sign = some '-' then -(Digits.value digits : Int) else Digits.value digits

/-- A number that makes up the whole of a run. An integer has to fit 64 bits. -/
def number : Reader Char Token := do
  let (negative, lead) ← wholeDigits
  let trail ← opt (do word ['.']; many1 (satisfy Digits.isDigit))
  let power ← opt exponent
  let magnitude := Digits.value (lead ++ trail.getD [])
  let signed : Int := if negative then -(magnitude : Int) else magnitude
  if trail.isNone ∧ power.isNone then
    if fits64 signed then return .int (Int64.ofInt signed) else refuse
  else
    return .float (Binary64.ofDecimal negative
      ⟨signed, ((trail.getD []).length : Int) - power.getD 0⟩)

/-! ### Strings -/

/-- A number of four hexadecimal digits, in place of the first of which a plus may stand. -/
def unitNumber? (digits : List Char) : Option Nat :=
  match digits with
  | '+' :: rest => Uuid.hexNumber? rest
  | digits => Uuid.hexNumber? digits

/-- The character of an escape by number. Surrogates are no characters. -/
def escapedUnit : Reader Char Char := fun input => do
  let digits := input.take 4
  if digits.length = 4 then
    let n ← unitNumber? digits
    if n < 0xD800 ∨ 0xE000 ≤ n then some (Char.ofNat n, input.drop 4) else none
  else none

/-- The character that a letter behind a backslash stands for. -/
def shortEscape? (c : Char) : Option Char :=
  if c = '"' ∨ c = '\\' ∨ c = '/' then some c
  else if c = 'b' then some (Char.ofNat 0x10)
  else if c = 'f' then some (Char.ofNat 0x0C)
  else if c = 'n' then some '\n'
  else if c = 'r' then some '\r'
  else if c = 't' then some '\t'
  else none

/-- One character of a string. -/
def character : Reader Char Char
  | '\\' :: 'u' :: rest => escapedUnit rest
  | '\\' :: c :: rest => (shortEscape? c).map fun d => (d, rest)
  | c :: rest => if c = '"' ∨ c = '\\' ∨ c = '\n' then none else some (c, rest)
  | [] => none

/-- The rest of a string behind its opening quote. -/
def stringRest : Reader Char Token := do
  let characters ← many character
  word ['"']
  return .string (String.ofList characters)

/-- The text of a block string up to its closing quotes, behind what was read so far, backwards.
Three quotes behind a backslash close nothing. -/
def blockRun (reversed : List Char) : Reader Char (List Char)
  | '"' :: '"' :: '"' :: rest =>
    if reversed.head? = some '\\' then blockRun ('"' :: '"' :: '"' :: reversed) rest
    else some (reversed.reverse, rest)
  | c :: rest => blockRun (c :: reversed) rest
  | [] => none

/-- The width of a text in UTF-8. -/
def width : List Char → Nat
  | [] => 0
  | c :: rest => c.utf8Size + width rest

/-- The width of the blanks at the front of a line, if there is anything else on it. -/
def indent? (line : List Char) : Option Nat :=
  if line.all Text.isBlank then none else some (width (line.takeWhile Text.isBlank))

/-- Drops characters up to a width. -/
def dropWidth (n : Nat) : List Char → List Char
  | [] => []
  | c :: rest => if n = 0 then c :: rest else dropWidth (n - c.utf8Size) rest

/-- Three quotes that were escaped. -/
def unescapeQuotes : List Char → List Char
  | '\\' :: '"' :: '"' :: '"' :: rest => '"' :: '"' :: '"' :: unescapeQuotes rest
  | c :: rest => c :: unescapeQuotes rest
  | [] => []

/-- Takes the common indent off a line. A line that is shorter than the indent, which only a blank
line can be, stays as it is. -/
def unindent (common : Nat) (line : List Char) : List Char :=
  if common ≤ width line then dropWidth common line else line

/-- The value of a block string: the common indent of all lines but the first is taken off, and
blank lines at both ends are dropped. -/
def blockValue (content : List Char) : List Char :=
  match Text.lines content with
  | [] => []
  | first :: rest =>
    let common := (rest.filterMap indent?).min?.getD 0
    let lines := first :: rest.map (unindent common)
    let isEmpty (line : List Char) : Bool := (indent? line).isNone
    let kept := ((lines.dropWhile isEmpty).reverse.dropWhile isEmpty).reverse
    List.intercalate ['\n'] (kept.map unescapeQuotes)

/-- The rest of a block string behind its opening quotes. -/
def blockRest : Reader Char Token := do
  let content ← blockRun []
  return .string (String.ofList (blockValue content))

/-! ### Words -/

/-- One word. -/
def token : Reader Char Token
  | '.' :: '.' :: '.' :: rest => some (.spread, rest)
  | '"' :: '"' :: '"' :: rest => blockRest rest
  | '"' :: rest => stringRest rest
  | [] => none
  | c :: rest =>
    if isMark c then some (.mark c, rest)
    else if startsName c then
      some (.name (String.ofList (c :: rest.takeWhile inName)), rest.dropWhile inName)
    else if c = '-' || Digits.isDigit c then
      let run := c :: rest.takeWhile (fun d => !endsNumber d)
      (number.whole run).map fun t => (t, rest.dropWhile fun d => !endsNumber d)
    else none

/-- The characters without meaning before a word, the word, and its text. -/
def lexeme : Reader Char (List Char × Token × List Char) := do
  let before ← ignored
  let (t, text) ← (fun input => (token input).map fun (t, rest) =>
    ((t, input.take (input.length - rest.length)), rest) : Reader Char (Token × List Char))
  return (before, t, text)

/-- Gives every word its position. -/
def place (p : Position) : List (List Char × Token × List Char) → List PlacedToken
  | [] => []
  | (before, t, text) :: rest =>
    let start := pastIgnored false p before
    ⟨t, start⟩ :: place (pastWord start text) rest

/-- The words of the whole of a text. -/
def tokens (text : List Char) : Option (List PlacedToken) := do
  let lexemes ← (do let words ← many lexeme; let _ ← ignored; return words :
    Reader Char (List (List Char × Token × List Char))).whole text
  return place ⟨1, 1⟩ lexemes

end Lexer

end GraphRead.Graphql
