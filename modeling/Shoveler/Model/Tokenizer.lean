import Shoveler.Common.Unfold
import Shoveler.Model.Value

/-!
# The tokenizer

`tokenizer.zig`: identifiers, numbers, quoted strings and identifiers, and
single bytes for everything else, with whitespace and three kinds of
comments skipped in between. The index into the input is kept together
with the input from there on.
-/

namespace Shoveler

/-! ## Bytes -/

/-- `std.ascii.isWhitespace`: space, tab, line feed, carriage return,
vertical tab and form feed. -/
def isWhitespace (c : UInt8) : Bool :=
  c == 32 || c == 9 || c == 10 || c == 13 || c == 11 || c == 12

/-- `std.ascii.isAlphabetic`. -/
def isAlphabetic (c : UInt8) : Bool :=
  decide (65 ≤ c ∧ c ≤ 90) || decide (97 ≤ c ∧ c ≤ 122)

/-- `std.ascii.isDigit`. -/
def isDigit (c : UInt8) : Bool := decide (48 ≤ c ∧ c ≤ 57)

/-- `std.ascii.isAlphanumeric`. -/
def isAlphanumeric (c : UInt8) : Bool := isAlphabetic c || isDigit c

namespace Byte

/-- `\n`. -/
abbrev newline : UInt8 := 10
/-- The double quote. -/
abbrev doubleQuote : UInt8 := 34
/-- `#`. -/
abbrev hash : UInt8 := 35
/-- `$`. -/
abbrev dollar : UInt8 := 36
/-- The single quote. -/
abbrev apostrophe : UInt8 := 39
/-- `*`. -/
abbrev star : UInt8 := 42
/-- `-`. -/
abbrev dash : UInt8 := 45
/-- `.`. -/
abbrev dot : UInt8 := 46
/-- `/`. -/
abbrev slash : UInt8 := 47
/-- The backslash. -/
abbrev backslash : UInt8 := 92
/-- `_`. -/
abbrev underscore : UInt8 := 95
/-- The quote of identifiers. -/
abbrev backtick : UInt8 := 96

end Byte

/-- `isIdentifierStart`. -/
def isIdentifierStart (c : UInt8) : Bool := isAlphabetic c || c == Byte.underscore

/-- `isIdentifierContinue`. -/
def isIdentifierContinue (c : UInt8) : Bool :=
  isAlphanumeric c || c == Byte.underscore || c == Byte.dollar

/-- `isNumberContinue`. -/
def isNumberContinue (c : UInt8) : Bool :=
  isAlphanumeric c || c == Byte.dot || c == Byte.underscore

/-! ## Tokens -/

/-- `TokenKind`. -/
inductive TokenKind where
  | identifier
  | number
  | string
  | symbol
deriving DecidableEq, Repr

/-- `Token`. -/
structure Token where
  kind : TokenKind
  lexeme : Bytes
  offset : ℕ
  terminated : Bool := true
deriving DecidableEq, Repr

/-- `Token.eqlIgnoreCase`. -/
def Token.eqlIgnoreCase (self : Token) (expected : Bytes) : Bool :=
  decide (self.kind = .identifier) && namesEqual self.lexeme expected

/-! ## Trivia -/

/-- `skipLineComment`, from inside the comment. -/
def skipLineComment (rest : Bytes) : Bytes := rest.dropWhile (· != Byte.newline)

/-- `skipBlockComment`, from inside the comment; one that is not closed
ends with the input. -/
def skipBlockComment : Bytes → Bytes
  | [] => []
  | [_] => []
  | c :: d :: rest =>
    if c = Byte.star ∧ d = Byte.slash then rest else skipBlockComment (d :: rest)

/-- A round of `skipTrivia`: a byte of whitespace or a comment. -/
def skipTriviaStep : Bytes → Option Bytes
  | [] => none
  | c :: rest =>
    if isWhitespace c then some rest
    else if c = Byte.hash then some (skipLineComment rest)
    else if c = Byte.dash ∧ rest.head? = some Byte.dash then some (skipLineComment rest.tail)
    else if c = Byte.slash ∧ rest.head? = some Byte.star then some (skipBlockComment rest.tail)
    else none

/-- `skipTrivia`. -/
def skipTrivia (rest : Bytes) : Bytes := Unfold.exhaust List.length skipTriviaStep rest

/-! ## Reading a token -/

/-- So many bytes more. -/
def readMore (n : ℕ) (read : ℕ × Bool) : ℕ × Bool := (read.1 + n, read.2)

/-- `readQuoted`, from behind the opening quote: how many bytes it reads,
and whether the last of them is the closing quote. A quote is doubled to
stand for itself; in all but apostrophes a backslash takes the next byte
with it. -/
def readQuoted (quote : UInt8) : Bytes → ℕ × Bool
  | [] => (0, false)
  | [c] => (1, c == quote)
  | c :: d :: rest =>
    if c = Byte.backslash ∧ quote ≠ Byte.apostrophe then readMore 2 (readQuoted quote rest)
    else if c = quote then
      if d = quote then readMore 2 (readQuoted quote rest) else (1, true)
    else readMore 1 (readQuoted quote (d :: rest))

/-- What the first byte of a token and the bytes behind it decide: its
kind, how many of the bytes behind it belong to it, and whether it is
terminated. -/
def readToken (c : UInt8) (rest : Bytes) : TokenKind × ℕ × Bool :=
  if isIdentifierStart c then
    (.identifier, (rest.takeWhile isIdentifierContinue).length, true)
  else if isDigit c then
    (.number, (rest.takeWhile isNumberContinue).length, true)
  else if c = Byte.apostrophe ∨ c = Byte.doubleQuote ∨ c = Byte.backtick then
    (if c = Byte.backtick then .identifier else .string, readQuoted c rest)
  else (.symbol, 0, true)

/-- `Tokenizer`: what is still to be read of the input, and the index
where it starts. -/
structure Tokenizer where
  rest : Bytes
  index : ℕ := 0
deriving DecidableEq, Repr

namespace Tokenizer

/-- `Tokenizer.next`. -/
def next (self : Tokenizer) : Option (Token × Tokenizer) :=
  let start := self.index + (self.rest.length - (skipTrivia self.rest).length)
  match skipTrivia self.rest with
  | [] => none
  | c :: rest =>
    let (kind, n, terminated) := readToken c rest
    some (⟨kind, c :: rest.take n, start, terminated⟩, ⟨rest.drop n, start + 1 + n⟩)

/-- The tokens `next` gives until it gives none. -/
def tokens (self : Tokenizer) : List Token :=
  Unfold.collect (fun t : Tokenizer => t.rest.length) next self

end Tokenizer

/-- The tokens of a text. -/
def tokenize (sql : Bytes) : List Token := Tokenizer.tokens { rest := sql }

example : (tokenize (ascii "SELECT a.b, `c d` -- end")).map Token.lexeme =
    [ascii "SELECT", ascii "a", ascii ".", ascii "b", ascii ",", ascii "`c d`"] := by
  decide +kernel

end Shoveler
