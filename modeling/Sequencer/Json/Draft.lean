import Sequencer.Json.Basic

/-!
# Drafts of JSON values

A malformed text is read as far as it goes. What results is a *draft*: a tree in which the places
that cannot be read are marked. Whoever walks a draft from left to right meets the first problem of
the text at its place, and can still object to something well-formed that stands before it.

Some places can be passed over though they cannot be read: half a surrogate pair has no character,
and a number may exceed the range of doubles, but both have a clear end. A *flaw* therefore says
separately what is wrong for a reader and for someone who only passes over.

## Main definitions

* `Fault`, `Fault.message`, `Fault.isEnd` — what can be wrong with a text
* `Flaw`, `Draft` — unreadable places, and trees with them
* `Draft.skip` — passing over a draft
* `Source` — a whole text: the draft of its value, and whether something stands behind it
* `Json.draft` — a value is a draft without flaws
-/

namespace Sequencer

/-- What can be wrong with a JSON text. -/
inductive Fault where
  | endInList
  | endInObject
  | endInText
  | endInValue
  | expectedColon
  | expectedListEnd
  | expectedObjectEnd
  | expectedWord
  | expectedValue
  | invalidEscape
  | invalidNumber
  | numberOutOfRange
  | controlCharacter
  | keyNotText
  | loneSurrogate
  | endOfSurrogate
  | trailingComma
  | trailingCharacters
  | tooDeep
deriving DecidableEq

namespace Fault

/-- The wording of a fault. -/
def message : Fault → String
  | .endInList => "EOF while parsing a list"
  | .endInObject => "EOF while parsing an object"
  | .endInText => "EOF while parsing a string"
  | .endInValue => "EOF while parsing a value"
  | .expectedColon => "expected `:`"
  | .expectedListEnd => "expected `,` or `]`"
  | .expectedObjectEnd => "expected `,` or `\x7d`"
  | .expectedWord => "expected ident"
  | .expectedValue => "expected value"
  | .invalidEscape => "invalid escape"
  | .invalidNumber => "invalid number"
  | .numberOutOfRange => "number out of range"
  | .controlCharacter => "control character (\\u0000-\\u001F) found while parsing a string"
  | .keyNotText => "key must be a string"
  | .loneSurrogate => "lone leading surrogate in hex escape"
  | .endOfSurrogate => "unexpected end of hex escape"
  | .trailingComma => "trailing comma"
  | .trailingCharacters => "trailing characters"
  | .tooDeep => "recursion limit exceeded"

/-- Whether the text ended too early, as opposed to having something wrong in it. -/
def isEnd : Fault → Bool
  | .endInList | .endInObject | .endInText | .endInValue => true
  | _ => false

end Fault

/-- A place that cannot be read: what a reader finds wrong there, and what someone passing over
does, if anything. -/
structure Flaw where
  read : Fault
  skip : Option Fault
deriving DecidableEq

/-- A place that can neither be read nor passed over. -/
def Flaw.always (fault : Fault) : Flaw := ⟨fault, some fault⟩

/-- A JSON value as far as its text can be read. -/
inductive Draft where
  | null
  | bool (value : Bool)
  | int (value : Int)
  | real (value : Float)
  | text (value : String)
  /-- A list and, if its end was not found, what stands there instead. -/
  | list (items : List Draft) (ending : Option Flaw)
  /-- An object and, if its end was not found, what stands there instead. A key that has no reading
  can still be passed over. -/
  | object (members : List (Except Fault String × Draft)) (ending : Option Flaw)
  /-- A number or a word that cannot be read to its end. -/
  | broken (flaw : Flaw)
  /-- Any other place without a reading. -/
  | flawed (flaw : Flaw)

/-- Passing over the end of a list or object. -/
def Flaw.skipEnding : Option Flaw → Except Fault Unit
  | some ⟨_, some fault⟩ => .error fault
  | _ => .ok ()

/-- A text that should hold one JSON value: what can be read of the value, and whether something
other than blanks stands behind it. -/
structure Source where
  draft : Draft
  trailing : Bool

namespace Draft

mutual

/-- Pass over a draft: find the first thing that keeps it from being passed over. -/
def skip : Draft → Except Fault Unit
  | .list items ending => do
    skipItems items
    Flaw.skipEnding ending
  | .object members ending => do
    skipMembers members
    Flaw.skipEnding ending
  | .broken flaw | .flawed flaw => Flaw.skipEnding (some flaw)
  | _ => .ok ()

/-- Pass over the items of a list. -/
def skipItems : List Draft → Except Fault Unit
  | [] => .ok ()
  | item :: items => do
    skip item
    skipItems items

/-- Pass over the members of an object. -/
def skipMembers : List (Except Fault String × Draft) → Except Fault Unit
  | [] => .ok ()
  | (_, value) :: members => do
    skip value
    skipMembers members

end

end Draft

mutual

/-- The draft of a value: nothing in it is flawed. -/
def Json.draft : Json → Draft
  | .null => .null
  | .bool b => .bool b
  | .int n => .int n
  | .real x => .real x
  | .text s => .text s
  | .list items => .list (Json.draftItems items) none
  | .object members => .object (Json.draftMembers members) none

/-- The drafts of list items. -/
def Json.draftItems : List Json → List Draft
  | [] => []
  | item :: items => Json.draft item :: Json.draftItems items

/-- The drafts of object members. -/
def Json.draftMembers : List (String × Json) → List (Except Fault String × Draft)
  | [] => []
  | (key, value) :: members => (.ok key, Json.draft value) :: Json.draftMembers members

end

end Sequencer
