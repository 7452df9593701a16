/-!
# Quoted text

The written form of a string: double quotes around it, short escapes for the quote, the backslash
and the four common control characters, and a hexadecimal escape for every other control character.
All remaining characters stand for themselves.
-/

namespace ConsHeap.Text.Quoted

/-- The control characters: below the space, and from delete up to the first Latin-1 sign. -/
def isControl (c : Char) : Bool :=
  c.toNat < 0x20 || (0x7f ≤ c.toNat && c.toNat < 0xa0)

/-- Lower-case hexadecimal digits between braces, without padding. -/
def hexEscape (c : Char) : List Char :=
  ['\\', 'u', '\x7b'] ++ Nat.toDigits 16 c.toNat ++ ['\x7d']

/-- One character as it stands between the quotes. -/
def escape (c : Char) : List Char :=
  match c with
  | '"' => ['\\', '"']
  | '\\' => ['\\', '\\']
  | '\n' => ['\\', 'n']
  | '\r' => ['\\', 'r']
  | '\t' => ['\\', 't']
  | '\x00' => ['\\', '0']
  | c => if isControl c then hexEscape c else [c]

/-- The quoted form of a string. -/
def quote (s : String) : String :=
  String.ofList ('"' :: s.toList.flatMap escape ++ ['"'])

end ConsHeap.Text.Quoted
