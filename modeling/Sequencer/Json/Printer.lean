import Sequencer.Json.Basic

/-!
# Writing JSON

Two layouts: compact, without any blank, and indented by two spaces. Both escape in texts only what
must be escaped, and write `null` for numbers that JSON cannot express.

## Main definitions

* `Json.quote` — a text in quotes
* `Json.compact`, `Json.write` — the compact layout, as characters and as a text
* `Json.indented`, `Json.writePretty` — the indented layout
-/

namespace Sequencer.Json

/-- A hexadecimal digit, in lower case. -/
def hexDigit (n : Nat) : Char := Char.ofNat (if n < 10 then 48 + n else 87 + n)

/-- A character inside a quoted text. The quote, the backslash and the control characters below the
space are escaped; everything else stands for itself. -/
def escape (c : Char) : List Char :=
  if c = '"' then ['\\', '"']
  else if c = '\\' then ['\\', '\\']
  else if c = '\n' then ['\\', 'n']
  else if c = '\r' then ['\\', 'r']
  else if c = '\t' then ['\\', 't']
  else if c.toNat = 8 then ['\\', 'b']
  else if c.toNat = 12 then ['\\', 'f']
  else if c.toNat < 32 then ['\\', 'u', '0', '0', hexDigit (c.toNat / 16), hexDigit (c.toNat % 16)]
  else [c]

/-- A text in quotes. -/
def quote (s : String) : List Char := '"' :: s.toList.flatMap escape ++ ['"']

/-- A number; `null` if it is not finite. -/
def numeral (x : Float) : List Char :=
  (if x.isFinite then number.write x else "null").toList

/-- The characters of a value that is neither a list nor an object. -/
def boolean (b : Bool) : List Char := if b then ['t', 'r', 'u', 'e'] else ['f', 'a', 'l', 's', 'e']

mutual

/-- The compact layout of a value. -/
def compact : Json → List Char
  | .null => ['n', 'u', 'l', 'l']
  | .bool b => boolean b
  | .int n => (toString n).toList
  | .real x => numeral x
  | .text s => quote s
  | .list [] => ['[', ']']
  | .list (item :: items) => '[' :: compact item ++ compactItems items
  | .object [] => ['\x7b', '\x7d']
  | .object ((key, value) :: members) =>
    '\x7b' :: quote key ++ ':' :: compact value ++ compactMembers members

/-- The items after the first one, and the end of the list. -/
def compactItems : List Json → List Char
  | [] => [']']
  | item :: items => ',' :: compact item ++ compactItems items

/-- The members after the first one, and the end of the object. -/
def compactMembers : List (String × Json) → List Char
  | [] => ['\x7d']
  | (key, value) :: members => ',' :: quote key ++ ':' :: compact value ++ compactMembers members

end

/-- The compact text of a value. -/
def write (j : Json) : String := String.ofList j.compact

/-- A line feed and the indentation of a level. -/
def newline (level : Nat) : List Char := '\n' :: List.replicate (2 * level) ' '

mutual

/-- The indented layout of a value that stands at the given level. -/
def indented (level : Nat) : Json → List Char
  | .null => ['n', 'u', 'l', 'l']
  | .bool b => boolean b
  | .int n => (toString n).toList
  | .real x => numeral x
  | .text s => quote s
  | .list [] => ['[', ']']
  | .list (item :: items) =>
    '[' :: newline (level + 1) ++ indented (level + 1) item ++ indentedItems level items
  | .object [] => ['\x7b', '\x7d']
  | .object ((key, value) :: members) =>
    '\x7b' :: newline (level + 1) ++ quote key ++ ':' :: ' ' :: indented (level + 1) value
      ++ indentedMembers level members

/-- The items after the first one, and the end of the list. -/
def indentedItems (level : Nat) : List Json → List Char
  | [] => newline level ++ [']']
  | item :: items =>
    ',' :: newline (level + 1) ++ indented (level + 1) item ++ indentedItems level items

/-- The members after the first one, and the end of the object. -/
def indentedMembers (level : Nat) : List (String × Json) → List Char
  | [] => newline level ++ ['\x7d']
  | (key, value) :: members =>
    ',' :: newline (level + 1) ++ quote key ++ ':' :: ' ' :: indented (level + 1) value
      ++ indentedMembers level members

end

/-- The indented text of a value, without a final line feed. -/
def writePretty (j : Json) : String := String.ofList (j.indented 0)

end Sequencer.Json
