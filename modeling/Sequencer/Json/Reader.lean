import Sequencer.Json.Draft
import Sequencer.Number.Numeral

/-!
# Reading JSON texts

A text is read into a draft. Scanners for numbers, texts and words work on the characters that
remain and return what remains after them; a scanner that cannot go on returns no remainder, and
reading ends there.

## Main definitions

* `Reader.number`, `Reader.text` — numbers and quoted texts
* `Reader.value` — any value
* `Source.read` — a whole text
-/

namespace Sequencer

namespace Reader

/-- What was read, and the characters that remain unless reading has to end here. -/
abbrev Scan := Draft × Option (List Char)

/-- Reading ends here, with a fault for everyone. -/
def stop (fault : Fault) : Scan := (.flawed (.always fault), none)

/-- Reading ends inside a number or a word. -/
def breakOff (read skip : Fault) : Scan := (.broken ⟨read, some skip⟩, none)

/-- The blanks between the tokens of a text. -/
def isSpace (c : Char) : Bool := c = ' ' || c = '\n' || c = '\t' || c = '\r'

/-- The characters after leading blanks. -/
def skipSpaces (cs : List Char) : List Char := cs.dropWhile isSpace

/-! ## Numbers -/

/-- The leading digits of a text. -/
def digits (cs : List Char) : List Nat := (cs.takeWhile Char.isDigit).map fun c => c.toNat - 48

/-- The characters after the leading digits of a text. -/
def afterDigits (cs : List Char) : List Char := cs.dropWhile Char.isDigit

/-- The draft of a numeral: an integer if it is one, and a double otherwise. One beyond the range of
doubles has no reading. -/
def numeric (n : Numeral) : Draft :=
  match n.integer? with
  | some value => .int value
  | none =>
    match n.toFloat? with
    | some x => .real x
    | none => .broken ⟨.numberOutOfRange, none⟩

/-- A number that breaks off: at the end of the text a reader waits for more. -/
def brokenNumber (rest : List Char) : Scan :=
  match rest with
  | [] => breakOff .endInValue .invalidNumber
  | _ => breakOff .invalidNumber .invalidNumber

/-- The power of a number, if one follows, after its digits. -/
def powerPart (n : Numeral) (cs : List Char) : Scan :=
  match cs with
  | c :: rest =>
    if c = 'e' || c = 'E' then
      let (down, rest) :=
        match rest with
        | '-' :: rest => (true, rest)
        | '+' :: rest => (false, rest)
        | _ => (false, rest)
      match digits rest with
      | [] => brokenNumber rest
      | power =>
        let size : Nat := power.foldl (fun size digit => 10 * size + digit) 0
        let power : Int := if down then -(size : Int) else size
        (numeric { n with power := some power }, some (afterDigits rest))
    else (numeric n, some cs)
  | [] => (numeric n, some [])

/-- The fraction of a number, if one follows, after its whole part. -/
def fractionPart (n : Numeral) (cs : List Char) : Scan :=
  match cs with
  | '.' :: rest =>
    match digits rest with
    | [] => brokenNumber rest
    | fraction => powerPart { n with fraction := fraction } (afterDigits rest)
  | _ => powerPart n cs

/-- A number without its sign. The whole part is a single zero or starts with another digit. -/
def unsignedNumber (negative : Bool) (cs : List Char) : Scan :=
  match cs with
  | [] => brokenNumber []
  | '0' :: rest =>
    match digits rest with
    | [] => fractionPart ⟨negative, [0], [], none⟩ rest
    | _ => breakOff .invalidNumber .invalidNumber
  | _ =>
    match digits cs with
    | [] => breakOff .invalidNumber .invalidNumber
    | whole => fractionPart ⟨negative, whole, [], none⟩ (afterDigits cs)

/-- A number. -/
def number (cs : List Char) : Scan :=
  match cs with
  | '-' :: rest => unsignedNumber true rest
  | _ => unsignedNumber false cs

/-! ## Texts

A quoted text is read in two passes. The first finds its end and takes escapes apart; the second
joins surrogate pairs. Only the second can meet flaws that do not hinder passing over. -/

/-- A piece of a quoted text: a character, or a code unit written in hexadecimal. -/
inductive Piece where
  | char (c : Char)
  | unit (code : Nat)

/-- How a quoted text ends: closed, with the characters that remain, or broken. A break may lie
inside a hexadecimal escape. -/
inductive Ending where
  | closed (rest : List Char)
  | broken (fault : Fault) (insideUnit : Bool)

/-- The value of a hexadecimal digit. -/
def hexValue? (c : Char) : Option Nat :=
  if c.isDigit then some (c.toNat - 48)
  else if 'a' ≤ c ∧ c ≤ 'f' then some (c.toNat - 87)
  else if 'A' ≤ c ∧ c ≤ 'F' then some (c.toNat - 55)
  else none

/-- The code unit written by four hexadecimal digits. -/
def unit? (a b c d : Char) : Option Nat := do
  let a ← hexValue? a
  let b ← hexValue? b
  let c ← hexValue? c
  let d ← hexValue? d
  return ((a * 16 + b) * 16 + c) * 16 + d

/-- What a hexadecimal escape without four digits lacks: more text, if fewer than four bytes
remain. -/
def brokenUnit (rest : List Char) : Ending :=
  if (String.ofList rest).utf8ByteSize < 4 then .broken .endInText true
    else .broken .invalidEscape true

/-- The character that a short escape stands for. -/
def shortEscape? (c : Char) : Option Char :=
  if c = '"' ∨ c = '\\' ∨ c = '/' then some c
  else if c = 'b' then some (Char.ofNat 8)
  else if c = 'f' then some (Char.ofNat 12)
  else if c = 'n' then some '\n'
  else if c = 'r' then some '\r'
  else if c = 't' then some '\t'
  else none

/-- The pieces of a quoted text after its opening quote. -/
def pieces (read : List Piece) : List Char → List Piece × Ending
  | [] => (read.reverse, .broken .endInText false)
  | '"' :: rest => (read.reverse, .closed rest)
  | '\\' :: [] => (read.reverse, .broken .endInText false)
  | '\\' :: 'u' :: a :: b :: c :: d :: rest =>
    match unit? a b c d with
    | some code => pieces (.unit code :: read) rest
    | none => (read.reverse, brokenUnit (a :: b :: c :: d :: rest))
  | '\\' :: 'u' :: rest => (read.reverse, brokenUnit rest)
  | '\\' :: e :: rest =>
    match shortEscape? e with
    | some c => pieces (.char c :: read) rest
    | none => (read.reverse, .broken .invalidEscape false)
  | c :: rest =>
    if c.toNat < 32 then (read.reverse, .broken .controlCharacter false)
    else pieces (.char c :: read) rest

/-- Whether a code unit is the first half of a surrogate pair. -/
def isLeading (code : Nat) : Bool := decide (0xD800 ≤ code ∧ code < 0xDC00)

/-- Whether a code unit is the second half of a surrogate pair. -/
def isTrailing (code : Nat) : Bool := decide (0xDC00 ≤ code ∧ code < 0xE000)

/-- Join the pieces of a text. The first half of a pair at the end of a broken text waits for its
second half if the text ended there, or broke inside an escape that could have been one. -/
def join (ending : Ending) (read : List Char) : List Piece → Except Fault (List Char)
  | [] => .ok read.reverse
  | .char c :: rest => join ending (c :: read) rest
  | .unit code :: rest =>
    if isTrailing code then .error .loneSurrogate
    else if isLeading code then
      match rest with
      | .unit second :: rest =>
        if isTrailing second then
          join ending
            (Char.ofNat (0x10000 + (code - 0xD800) * 0x400 + (second - 0xDC00)) :: read) rest
        else .error .loneSurrogate
      | .char _ :: _ => .error .endOfSurrogate
      | [] =>
        match ending with
        | .closed _ => .error .endOfSurrogate
        | .broken fault insideUnit =>
          if fault = .endInText ∨ insideUnit then .ok read.reverse else .error .endOfSurrogate
    else join ending (Char.ofNat code :: read) rest

/-- A quoted text after its opening quote: its reading or the flaw that it has instead, and the
characters that remain. -/
def text (cs : List Char) : Except Flaw String × Option (List Char) :=
  let (parts, ending) := pieces [] cs
  match join ending [] parts, ending with
  | .ok chars, .closed rest => (.ok (String.ofList chars), some rest)
  | .error fault, .closed rest => (.error ⟨fault, none⟩, some rest)
  | .ok _, .broken fault _ => (.error (.always fault), none)
  | .error first, .broken fault _ => (.error ⟨first, some fault⟩, none)

/-! ## Values -/

/-- The rest of a word whose first letter has been read. -/
def word (result : Draft) : List Char → List Char → Scan
  | [], cs => (result, some cs)
  | _ :: _, [] => breakOff .endInValue .endInValue
  | expected :: more, c :: cs =>
    if c = expected then word result more cs else breakOff .expectedWord .expectedWord

mutual

/-- Read a value. The fuel bounds the depth of the recursion; twice the number of characters
suffices, because every second step takes a character. -/
def value : Nat → List Char → Scan
  | 0, _ => stop .tooDeep
  | fuel + 1, cs =>
    match skipSpaces cs with
    | [] => stop .endInValue
    | c :: rest =>
      if c = '"' then
        match text rest with
        | (.ok s, rest) => (.text s, rest)
        | (.error flaw, rest) => (.flawed flaw, rest)
      else if c = '[' then firstItem fuel rest
      else if c = '\x7b' then firstMember fuel rest
      else if c = 't' then word (.bool true) ['r', 'u', 'e'] rest
      else if c = 'f' then word (.bool false) ['a', 'l', 's', 'e'] rest
      else if c = 'n' then word .null ['u', 'l', 'l'] rest
      else if c = '-' || c.isDigit then number (c :: rest)
      else stop .expectedValue

/-- Read a list after its opening bracket. -/
def firstItem : Nat → List Char → Scan
  | 0, _ => stop .tooDeep
  | fuel + 1, cs =>
    match skipSpaces cs with
    | [] => (.list [] (some (.always .endInList)), none)
    | c :: rest =>
      if c = ']' then (.list [] none, some rest)
      else
        match value fuel (c :: rest) with
        | (item, none) => (.list [item] none, none)
        | (item, some rest) => moreItems fuel [item] rest

/-- Read a list after some of its items, which are given in reverse. -/
def moreItems : Nat → List Draft → List Char → Scan
  | 0, _, _ => stop .tooDeep
  | fuel + 1, read, cs =>
    match skipSpaces cs with
    | [] => (.list read.reverse (some (.always .endInList)), none)
    | c :: rest =>
      if c = ']' then (.list read.reverse none, some rest)
      else if c = ',' then
        match skipSpaces rest with
        | [] => (.list (.flawed (.always .endInValue) :: read).reverse none, none)
        | next :: after =>
          if next = ']' then
            (.list (.flawed ⟨.trailingComma, some .expectedValue⟩ :: read).reverse none, none)
          else
            match value fuel (next :: after) with
            | (item, none) => (.list (item :: read).reverse none, none)
            | (item, some rest) => moreItems fuel (item :: read) rest
      else (.list read.reverse (some (.always .expectedListEnd)), none)

/-- Read an object after its opening brace. -/
def firstMember : Nat → List Char → Scan
  | 0, _ => stop .tooDeep
  | fuel + 1, cs =>
    match skipSpaces cs with
    | [] => (.object [] (some (.always .endInObject)), none)
    | c :: rest =>
      if c = '\x7d' then (.object [] none, some rest)
      else if c = '"' then member fuel [] rest
      else (.object [] (some (.always .keyNotText)), none)

/-- Read an object after some of its members, which are given in reverse. -/
def moreMembers : Nat → List (Except Fault String × Draft) → List Char → Scan
  | 0, _, _ => stop .tooDeep
  | fuel + 1, read, cs =>
    match skipSpaces cs with
    | [] => (.object read.reverse (some (.always .endInObject)), none)
    | c :: rest =>
      if c = '\x7d' then (.object read.reverse none, some rest)
      else if c = ',' then
        match skipSpaces rest with
        | [] => (.object read.reverse (some ⟨.endInValue, some .endInObject⟩), none)
        | next :: after =>
          if next = '"' then member fuel read after
          else if next = '\x7d' then
            (.object read.reverse (some ⟨.trailingComma, some .keyNotText⟩), none)
          else (.object read.reverse (some (.always .keyNotText)), none)
      else (.object read.reverse (some (.always .expectedObjectEnd)), none)

/-- Read a member of an object after the opening quote of its key. -/
def member : Nat → List (Except Fault String × Draft) → List Char → Scan
  | 0, _, _ => stop .tooDeep
  | fuel + 1, read, cs =>
    match text cs with
    | (.error flaw, none) => (.object read.reverse (some flaw), none)
    | (.ok _, none) => (.object read.reverse (some (.always .endInText)), none)
    | (key, some rest) =>
      let key : Except Fault String :=
        match key with
        | .ok key => .ok key
        | .error flaw => .error flaw.read
      match skipSpaces rest with
      | [] => (.object ((key, .flawed (.always .endInObject)) :: read).reverse none, none)
      | c :: rest =>
        if c = ':' then
          match value fuel rest with
          | (item, none) => (.object ((key, item) :: read).reverse none, none)
          | (item, some rest) => moreMembers fuel ((key, item) :: read) rest
        else (.object ((key, .flawed (.always .expectedColon)) :: read).reverse none, none)

end

end Reader

/-- Read a whole text. -/
def Source.read (s : String) : Source :=
  let cs := s.toList
  match Reader.value (4 * cs.length + 4) cs with
  | (draft, none) => ⟨draft, false⟩
  | (draft, some rest) => ⟨draft, !(Reader.skipSpaces rest).isEmpty⟩

end Sequencer
