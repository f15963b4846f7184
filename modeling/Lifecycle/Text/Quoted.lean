import Lifecycle.Text.Unprintable

/-!
# Quoted text

How a text is shown inside a message: between double quotes, with the quote and
the backslash escaped, the common control characters under their letters and
every other unprintable character by its code point in hexadecimal. Any other
character stands for itself.
-/

namespace Lifecycle.Text

def quotedChar (c : Char) : List Char :=
  if c = '"' then ['\\', '"']
  else if c = '\\' then ['\\', '\\']
  else if c = '\n' then ['\\', 'n']
  else if c = '\r' then ['\\', 'r']
  else if c = '\t' then ['\\', 't']
  else if c.toNat = 0 then ['\\', '0']
  else if isUnprintable c then ['\\', 'u', '\x7b'] ++ Nat.toDigits 16 c.toNat ++ ['\x7d']
  else [c]

def quoted (s : String) : String :=
  String.ofList (['"'] ++ s.toList.flatMap quotedChar ++ ['"'])

end Lifecycle.Text
