import TagWire.Text.Digits
import TagWire.Text.Hidden

/-!
# Quoted text

For diagnostics a text is put in quotes.  Quotes and backslashes in it are
escaped, common controls have a letter, and every other character that would
not show is written by its number.
-/

namespace TagWire.Quoted

/-- One character as it stands between the quotes. -/
def escape (c : Char) : List Char :=
  if c = '\x00' then ['\\', '0']
  else if c = '\t' then ['\\', 't']
  else if c = '\r' then ['\\', 'r']
  else if c = '\n' then ['\\', 'n']
  else if c = '"' || c = '\\' then ['\\', c]
  else if Hidden.isHidden c then ['\\', 'u', '\x7b'] ++ Nat.toDigits 16 c.toNat ++ ['\x7d']
  else [c]

/-- The text in quotes. -/
def encode (text : String) : String :=
  String.ofList ('"' :: text.toList.flatMap escape ++ ['"'])

end TagWire.Quoted
