import Notebook.Text.Hidden

/-!
# Quoted text

How a text appears inside a message: between double quotes, with the quote, the backslash and the
common controls escaped by a letter, and every other character that would not be visible written
by its code point in hexadecimal. A single quote stands for itself.
-/

set_option autoImplicit false

namespace Notebook.Text

/-- How one character appears between double quotes. -/
def quotedChar (c : Char) : List Char :=
  if c = '\x00' then ['\\', '0']
  else if c = '\t' then ['\\', 't']
  else if c = '\r' then ['\\', 'r']
  else if c = '\n' then ['\\', 'n']
  else if c = '\\' then ['\\', '\\']
  else if c = '"' then ['\\', '"']
  else if isHidden c then ['\\', 'u', '\x7b'] ++ Nat.toDigits 16 c.toNat ++ ['\x7d']
  else [c]

def quoted (s : String) : String :=
  String.ofList (['"'] ++ s.toList.flatMap quotedChar ++ ['"'])

end Notebook.Text
