/-!
# JSON tokens

The lexical level of JSON. A text is a sequence of punctuation, strings and words, where a word is a
maximal run of the characters that numbers and names consist of; which words mean something is
decided when the word is complete. The lexer looks at every character once, in order.

A string may name a surrogate without its partner. Such a string is well formed but stands for no
text, so its content is `none`.
-/

namespace ConsHeap.Json

/-! ### Strings -/

/-- One character of a string, or one 16-bit unit written in hexadecimal. -/
inductive Piece where
  | char (c : Char)
  | unit (n : Nat)
  deriving DecidableEq

/-- The first half of a surrogate pair. -/
def isHigh (n : Nat) : Bool :=
  0xd800 ≤ n && n < 0xdc00

/-- The second half of a surrogate pair. -/
def isLow (n : Nat) : Bool :=
  0xdc00 ≤ n && n < 0xe000

/-- The character of a surrogate pair. -/
def combine (high low : Nat) : Char :=
  Char.ofNat (0x10000 + (high - 0xd800) * 0x400 + (low - 0xdc00))

/-- The text that pieces stand for; there is none if a surrogate lacks its partner. -/
def decode : List Piece → Option (List Char)
  | [] => some []
  | .char c :: rest => (decode rest).map (c :: ·)
  | .unit n :: .unit m :: rest =>
    -- a high half needs a low one right behind it, and a low half never stands first
    if isHigh n then
      if isLow m then (decode rest).map (combine n m :: ·) else none
    else if isLow n then none
    else (decode (.unit m :: rest)).map (Char.ofNat n :: ·)
  | .unit n :: rest =>
    if isHigh n || isLow n then none else (decode rest).map (Char.ofNat n :: ·)

/-- The character that a short escape stands for. -/
def shortEscape? : Char → Option Char
  | '"' => some '"'
  | '\\' => some '\\'
  | '/' => some '/'
  | 'b' => some '\x08'
  | 'f' => some '\x0c'
  | 'n' => some '\n'
  | 'r' => some '\r'
  | 't' => some '\t'
  | _ => none

/-- The value of a hexadecimal digit of either case. -/
def hexDigit? (c : Char) : Option Nat :=
  if c.isDigit then some (c.toNat - '0'.toNat)
  else if 'a' ≤ c ∧ c ≤ 'f' then some (c.toNat - 'a'.toNat + 10)
  else if 'A' ≤ c ∧ c ≤ 'F' then some (c.toNat - 'A'.toNat + 10)
  else none

/-! ### Numbers -/

/-- A number as it is written. Only digits make an integer; any sign, fraction or exponent makes a
number of the other kind, whatever its value. -/
inductive Number where
  | integer (n : Nat)
  | other
  deriving DecidableEq

/-- A sign and digits, at least one, and nothing else. -/
def isExponent : List Char → Bool
  | '+' :: ds | '-' :: ds => !ds.isEmpty && ds.all Char.isDigit
  | ds => !ds.isEmpty && ds.all Char.isDigit

/-- What may stand after the digits of a fraction, or in place of one: nothing or an exponent. -/
def isExponentPart : List Char → Bool
  | [] => true
  | 'e' :: cs | 'E' :: cs => isExponent cs
  | _ => false

/-- What may stand after the whole part: nothing, a fraction, an exponent, or both in this order. -/
def isFractionPart : List Char → Bool
  | '.' :: cs =>
    !(cs.takeWhile Char.isDigit).isEmpty && isExponentPart (cs.dropWhile Char.isDigit)
  | cs => isExponentPart cs

/-- Whole parts are zero or start with another digit. -/
def isWhole : List Char → Bool
  | [] => false
  | ['0'] => true
  | '0' :: _ => false
  | _ => true

/-- The value of decimal digits. -/
def digitsValue (ds : List Char) : Nat :=
  ds.foldl (fun n d => n * 10 + (d.toNat - '0'.toNat)) 0

/-- A number without its sign. -/
def unsigned? (cs : List Char) : Option Number :=
  let whole := cs.takeWhile Char.isDigit
  let rest := cs.dropWhile Char.isDigit
  if !isWhole whole then none
  else if rest.isEmpty then some (.integer (digitsValue whole))
  else if isFractionPart rest then some .other
  else none

/-- The number that a word writes. -/
def number? : List Char → Option Number
  -- a signed number is no count, not even a signed zero
  | '-' :: cs => (unsigned? cs).map fun _ => .other
  | cs => unsigned? cs

/-! ### Tokens -/

/-- A token. -/
inductive Token where
  | openBrace
  | closeBrace
  | openBracket
  | closeBracket
  | colon
  | comma
  | null
  | bool (b : Bool)
  | number (n : Number)
  | string (text : Option String)
  deriving DecidableEq

/-- The token of a complete word. -/
def word? (cs : List Char) : Option Token :=
  if cs = "null".toList then some .null
  else if cs = "true".toList then some (.bool true)
  else if cs = "false".toList then some (.bool false)
  else (number? cs).map .number

/-- The punctuation marks. -/
def punctuation? : Char → Option Token
  | '\x7b' => some .openBrace
  | '\x7d' => some .closeBrace
  | '[' => some .openBracket
  | ']' => some .closeBracket
  | ':' => some .colon
  | ',' => some .comma
  | _ => none

/-- The characters between tokens that mean nothing. -/
def isBlank (c : Char) : Bool :=
  c == ' ' || c == '\t' || c == '\n' || c == '\r'

/-- The characters of words. -/
def isWordChar (c : Char) : Bool :=
  c.isAlphanum || c == '-' || c == '+' || c == '.'

/-! ### The lexer -/

/-- Where the lexer stands: between tokens, inside a word, inside a string, right after a backslash,
or inside a hexadecimal escape of which some digits are read. What was read stands newest first. -/
inductive Place where
  | between
  | word (read : List Char)
  | string (read : List Piece)
  | escape (read : List Piece)
  | hex (read : List Piece) (value digits : Nat)

/-- The tokens read so far, newest first, and the place. -/
structure Lexer where
  tokens : List Token := []
  place : Place := .between

namespace Lexer

/-- One more token, and the lexer between tokens again. -/
def emit (l : Lexer) (t : Token) : Lexer :=
  ⟨t :: l.tokens, .between⟩

/-- The lexer after the end of a word. -/
def endWord (l : Lexer) (read : List Char) : Option Lexer :=
  (word? read.reverse).map l.emit

/-- A character between tokens. -/
def stepBetween (l : Lexer) (c : Char) : Option Lexer :=
  if isBlank c then some { l with place := .between }
  else if isWordChar c then some { l with place := .word [c] }
  else if c = '"' then some { l with place := .string [] }
  else (punctuation? c).map l.emit

/-- A character of a string: the closing quote, a backslash, or a character that is no control
character and stands for itself. -/
def stepString (l : Lexer) (read : List Piece) (c : Char) : Option Lexer :=
  if c = '"' then some (l.emit (.string ((decode read.reverse).map String.ofList)))
  else if c = '\\' then some { l with place := .escape read }
  else if c.toNat < 0x20 then none
  else some { l with place := .string (.char c :: read) }

/-- The character after a backslash. -/
def stepEscape (l : Lexer) (read : List Piece) (c : Char) : Option Lexer :=
  if c = 'u' then some { l with place := .hex read 0 0 }
  else (shortEscape? c).map fun e => { l with place := .string (.char e :: read) }

/-- A digit of a hexadecimal escape, of which there are four. -/
def stepHex (l : Lexer) (read : List Piece) (value digits : Nat) (c : Char) : Option Lexer :=
  (hexDigit? c).map fun d =>
    let value := value * 16 + d
    if digits = 3 then { l with place := .string (.unit value :: read) }
    else { l with place := .hex read value (digits + 1) }

/-- The lexer after one more character, if the character can stand there. -/
def step (l : Lexer) (c : Char) : Option Lexer :=
  match l.place with
  | .between => l.stepBetween c
  | .word read =>
    if isWordChar c then some { l with place := .word (c :: read) }
    -- the character that ends a word is itself read as one between tokens
    else (l.endWord read).bind (·.stepBetween c)
  | .string read => l.stepString read c
  | .escape read => l.stepEscape read c
  | .hex read value digits => l.stepHex read value digits c

/-- The tokens at the end of the text, in order. A word may end here, a string may not. -/
def finish (l : Lexer) : Option (List Token) :=
  match l.place with
  | .between => some l.tokens.reverse
  | .word read => (l.endWord read).map (·.tokens.reverse)
  | _ => none

end Lexer

/-- The tokens of a text. -/
def tokenize (text : List Char) : Option (List Token) :=
  (text.foldlM Lexer.step {}).bind Lexer.finish

end ConsHeap.Json
