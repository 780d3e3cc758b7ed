import Sequencer.Text.Unseen

/-!
# Texts in messages

A message shows a text in quotes, on one line and with nothing invisible in it: line breaks and tabs
are written as short escapes, and characters that have no shape of their own by their code point.

## Main definitions

* `Text.quoted` — a text as a message shows it
-/

namespace Sequencer.Text

/-- A character inside a quoted text of a message. -/
def quotedChar (c : Char) : List Char :=
  if c = '\t' then ['\\', 't']
  else if c = '\n' then ['\\', 'n']
  else if c = '\r' then ['\\', 'r']
  else if c = '"' then ['\\', '"']
  else if c = '\\' then ['\\', '\\']
  else if c.toNat = 0 then ['\\', '0']
  else if isUnseen c then ['\\', 'u', '\x7b'] ++ Nat.toDigits 16 c.toNat ++ ['\x7d']
  else [c]

/-- A text as a message shows it, in quotes. -/
def quoted (s : String) : String := String.ofList ('"' :: s.toList.flatMap quotedChar ++ ['"'])

end Sequencer.Text
