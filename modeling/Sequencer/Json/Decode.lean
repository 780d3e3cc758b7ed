import Sequencer.Json.Draft
import Sequencer.OrderedMap
import Sequencer.Text.Quoted

/-!
# Decoding drafts

A draft is decoded from left to right, and the first problem wins: a flaw of the text, or something
well-formed that is not what was expected. Records are decoded by a list of fields. They may be
written as objects, in any order of members, or as lists of their fields in the declared order.

## Main definitions

* `DecodeError`, `DecodeError.message` — what can be wrong
* `Decode.Place` — the medium that is decoded, and how deep one is in it
* `Decode.real`, `Decode.text`, `Decode.listOf`, `Decode.mapOf`, `Decode.any` — plain values
* `Decode.RecordField`, `Decode.Record`, `Decode.record` — records
-/

namespace Sequencer

/-- What a draft holds, for messages. -/
inductive Found where
  | null
  | bool (value : Bool)
  | int (value : Int)
  | real (value : Float)
  | text (value : String)
  | list
  | object

/-- The wording of what was found. -/
def Found.describe : Found → String
  | .null => "null"
  | .bool b => "boolean `" ++ (if b then "true" else "false") ++ "`"
  | .int n => "integer `" ++ toString n ++ "`"
  | .real x => "floating point `" ++ Json.number.write x ++ "`"
  | .text s => "string " ++ Text.quoted s
  | .list => "sequence"
  | .object => "map"

/-- Why a draft cannot be decoded. -/
inductive DecodeError where
  /-- The text is malformed. -/
  | fault (cause : Fault)
  /-- A required field is missing. -/
  | missing (field : String)
  /-- A field is given twice. -/
  | duplicate (field : String)
  /-- A name is none of those expected. -/
  | unknownVariant (name : String)
  /-- Something of another type was expected. -/
  | wrongType (found : Found) (expected : String)
  /-- Another value of the same type was expected. -/
  | wrongValue (found : Found) (expected : String)
  /-- A list has too few or too many items. -/
  | wrongLength (length : Nat) (expected : String)

/-- The wording of a decoding error. -/
def DecodeError.message : DecodeError → String
  | .fault cause => cause.message
  | .missing field => "missing field `" ++ field ++ "`"
  | .duplicate field => "duplicate field `" ++ field ++ "`"
  | .unknownVariant name => "unknown variant `" ++ name ++ "`, expected `awg` or `acq`"
  | .wrongType found expected => "invalid type: " ++ found.describe ++ ", expected " ++ expected
  | .wrongValue found expected => "invalid value: " ++ found.describe ++ ", expected " ++ expected
  | .wrongLength length expected =>
    "invalid length " ++ toString length ++ ", expected " ++ expected

namespace Decode

/-- What is decoded: a text, whose nesting is limited, or a value that is in memory already. -/
inductive Medium where
  | text
  | memory
deriving DecidableEq

/-- Where in a medium one is: inside how many lists and objects. -/
structure Place where
  medium : Medium
  depth : Nat

/-- How many lists and objects of a text may be nested. -/
def depthLimit : Nat := 127

/-- Step into a list or an object. -/
def Place.enter (p : Place) : Except DecodeError Place :=
  if p.medium = .text ∧ depthLimit ≤ p.depth then .error (.fault .tooDeep)
  else .ok { p with depth := p.depth + 1 }

/-- Refuse a draft: its own flaw comes first, else it has the wrong type. -/
def refuse {α : Type} (expected : String) : Draft → Except DecodeError α
  | .null => .error (.wrongType .null expected)
  | .bool b => .error (.wrongType (.bool b) expected)
  | .int n => .error (.wrongType (.int n) expected)
  | .real x => .error (.wrongType (.real x) expected)
  | .text s => .error (.wrongType (.text s) expected)
  | .list _ _ => .error (.wrongType .list expected)
  | .object _ _ => .error (.wrongType .object expected)
  | .broken flaw | .flawed flaw => .error (.fault flaw.read)

/-- The end of a list or object, which has to be there. -/
def close : Option Flaw → Except DecodeError Unit
  | some flaw => .error (.fault flaw.read)
  | none => .ok ()

/-- The key of a member. -/
def key : Except Fault String → Except DecodeError String
  | .ok key => .ok key
  | .error fault => .error (.fault fault)

/-! ## Plain values -/

/-- A number. -/
def real (_ : Place) : Draft → Except DecodeError Float
  | .int n => .ok (Float.ofInt n)
  | .real x => .ok x
  | draft => refuse "f64" draft

/-- A natural number of 32 bits. -/
def word32 (_ : Place) : Draft → Except DecodeError UInt32
  | .int n =>
    if 0 ≤ n ∧ n < 4294967296 then .ok (UInt32.ofNat n.toNat)
      else .error (.wrongValue (.int n) "u32")
  | draft => refuse "u32" draft

/-- A text. -/
def text (_ : Place) : Draft → Except DecodeError String
  | .text s => .ok s
  | draft => refuse "a string" draft

/-- A value that may be null. -/
def optional {α : Type} (decode : Place → Draft → Except DecodeError α) (p : Place) :
    Draft → Except DecodeError (Option α)
  | .null => .ok none
  | draft => some <$> decode p draft

/-- A list. -/
def listOf {α : Type} (decode : Place → Draft → Except DecodeError α) (p : Place) :
    Draft → Except DecodeError (List α)
  | .list items ending => do
    let p ← p.enter
    let values ← items.mapM (decode p)
    close ending
    return values
  | draft => refuse "a sequence" draft

/-- A map; a repeated key keeps its first place and takes the last value. -/
def mapOf {α : Type} (decode : Place → Draft → Except DecodeError α) (p : Place) :
    Draft → Except DecodeError (OrderedMap String α)
  | .object members ending => do
    let p ← p.enter
    let entries ← members.mapM fun member => do
      let name ← key member.1
      let value ← decode p member.2
      return (name, value)
    close ending
    return OrderedMap.ofList entries
  | draft => refuse "a map" draft

mutual

/-- Any value. -/
def any (p : Place) : Draft → Except DecodeError Json
  | .null => .ok .null
  | .bool b => .ok (.bool b)
  | .int n => .ok (.int n)
  | .real x => .ok (.real x)
  | .text s => .ok (.text s)
  | .list items ending => do
    let p ← p.enter
    let values ← anyItems p items
    close ending
    return .list values
  | .object members ending => do
    let p ← p.enter
    let entries ← anyMembers p [] members
    close ending
    return .object entries
  | .broken flaw | .flawed flaw => .error (.fault flaw.read)

/-- Any list items. -/
def anyItems (p : Place) : List Draft → Except DecodeError (List Json)
  | [] => .ok []
  | item :: items => do
    let value ← any p item
    let values ← anyItems p items
    return value :: values

/-- Any object members, added to those read before. -/
def anyMembers (p : Place) (read : List (String × Json)) :
    List (Except Fault String × Draft) → Except DecodeError (List (String × Json))
  | [] => .ok read
  | (name, item) :: members => do
    let name ← key name
    let value ← any p item
    anyMembers p (insertEntry read name value) members

end

/-! ## Records -/

/-- A field of a record that is decoded into a form `F`, a record with gaps. -/
structure RecordField (F : Type) where
  name : String
  /-- Whether a form has this field already. -/
  isSet : F → Bool
  /-- Decode the field and fill it in. -/
  fill : Place → Draft → F → Except DecodeError F

/-- A field given by its decoder, a way to look at it and a way to fill it in. -/
def field {F α : Type} (name : String) (get : F → Option α) (set : F → α → F)
    (decode : Place → Draft → Except DecodeError α) : RecordField F where
  name := name
  isSet := fun form => (get form).isSome
  fill := fun p draft form => do return set form (← decode p draft)

/-- How a record is decoded. -/
structure Record (F : Type) where
  /-- What the record is called in messages. -/
  title : String
  /-- The fields in the declared order, the required ones first. -/
  fields : List (RecordField F)
  /-- How many fields a list must have at least. -/
  required : Nat

variable {F : Type}

/-- Decode the members of an object into a form. A member that is no field goes to `other`. -/
def members (fields : List (RecordField F))
    (other : Place → String → Draft → F → Except DecodeError F) (p : Place) :
    F → List (Except Fault String × Draft) → Except DecodeError F
  | form, [] => .ok form
  | form, (name, draft) :: rest => do
    let name ← key name
    match fields.find? (·.name == name) with
    | some field =>
      if field.isSet form then .error (.duplicate name)
      else
        let form ← field.fill p draft form
        members fields other p form rest
    | none =>
      let form ← other p name draft form
      members fields other p form rest

/-- Pass over a member. -/
def ignore (_ : Place) (_ : String) (draft : Draft) (form : F) : Except DecodeError F :=
  match draft.skip with
  | .ok () => .ok form
  | .error fault => .error (.fault fault)

/-- What is wrong with a list whose fields have all been read, if it does not end there. -/
def excess (medium : Medium) (length : Nat) : List Draft → Option Flaw → Except DecodeError Unit
  | item :: _, _ =>
    match medium, item with
    | .memory, _ => .error (.wrongLength length "fewer elements in array")
    | .text, .flawed ⟨.trailingComma, _⟩ => .error (.fault .trailingComma)
    | .text, _ => .error (.fault .trailingCharacters)
  | [], some ⟨.endInList, _⟩ => .error (.fault .endInList)
  | [], some _ => .error (.fault .trailingCharacters)
  | [], none => .ok ()

/-- Decode list items into a form, field by field. -/
def items (r : Record F) (p : Place) (length : Nat) (ending : Option Flaw) :
    Nat → List (RecordField F) → F → List Draft → Except DecodeError F
  | _, [], form, rest => do
    excess p.medium length rest ending
    return form
  | read, _ :: _, form, [] => do
    close ending
    if read < r.required then
      .error (.wrongLength read (r.title ++ " with " ++ toString r.fields.length ++ " elements"))
    else return form
  | read, field :: fields, form, item :: rest => do
    let form ← field.fill p item form
    items r p length ending (read + 1) fields form rest

/-- Decode a record, written as an object or as a list of its fields, into a form. -/
def record (r : Record F) (blank : F) (p : Place) : Draft → Except DecodeError F
  | .object entries ending => do
    let p ← p.enter
    let form ← members r.fields ignore p blank entries
    close ending
    return form
  | .list drafts ending => do
    let p ← p.enter
    items r p drafts.length ending 0 r.fields blank drafts
  | draft => refuse r.title draft

/-- A field that has to be there. -/
def require {α : Type} (name : String) : Option α → Except DecodeError α
  | some value => .ok value
  | none => .error (.missing name)

end Decode

/-- Decode a whole text. What stands behind the value is looked at last. -/
def Source.decode {α : Type} (s : Source) (decode : Decode.Place → Draft → Except DecodeError α) :
    Except DecodeError α := do
  let value ← decode ⟨.text, 0⟩ s.draft
  if s.trailing then .error (.fault .trailingCharacters) else return value

end Sequencer
