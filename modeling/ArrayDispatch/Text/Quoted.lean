import ArrayDispatch.Text.Characters

/-!
Quoted text: quotes, backslashes and characters that show nothing of their own are escaped, and
all others stand for themselves.
-/

namespace ArrayDispatch.Quoted

/-- Code point of a character in hexadecimal, in braces: `\u{301}`. -/
def escapeCode (c : Char) : List Char :=
  ['\\', 'u', '\x7b'] ++ Nat.toDigits 16 c.toNat ++ ['\x7d']

/-- Whether a character shows as one of its own. One that extends the character before it would
show on the quote or on a neighbour, and one that a display may leave out might not show at all,
although both can be printable. -/
def isPlain (c : Char) : Bool := isPrintable c && !isGraphemeExtend c && !isDefaultIgnorable c

/-- Escaped form of a character between quotes. -/
def escape (c : Char) : List Char :=
  if c = '"' then ['\\', '"']
  else if c = '\\' then ['\\', '\\']
  else if c = '\n' then ['\\', 'n']
  else if c = '\t' then ['\\', 't']
  else if c = '\r' then ['\\', 'r']
  else if c.toNat = 0 then ['\\', '0']
  else if isPlain c then [c]
  else escapeCode c

def quote (s : String) : String :=
  String.ofList ('"' :: s.toList.flatMap escape ++ ['"'])

end ArrayDispatch.Quoted
