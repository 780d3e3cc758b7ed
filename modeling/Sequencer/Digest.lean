/-!
# The SHA-1 digest

The message is padded to whole blocks of 64 bytes, each block of sixteen words is extended to
eighty, and the words of all blocks are folded into a state of five words.

## Main definitions

* `Digest.pad`, `Digest.words`, `Digest.extend`, `Digest.compress` — the parts
* `Digest.sha1` — the digest of a text, in hexadecimal
-/

namespace Sequencer.Digest

/-- The state that the words of a message are folded into. -/
structure State where
  a : UInt32
  b : UInt32
  c : UInt32
  d : UInt32
  e : UInt32

/-- The state before the first block. -/
def initial : State := ⟨0x67452301, 0xEFCDAB89, 0x98BADCFE, 0x10325476, 0xC3D2E1F0⟩

/-- Rotate a word to the left. -/
def rotate (x n : UInt32) : UInt32 := (x <<< n) ||| (x >>> (32 - n))

/-- The big-endian bytes of a number, `count` of them. -/
def bigEndian (count n : Nat) : List UInt8 :=
  (List.range count).map fun i => (n >>> (8 * (count - 1 - i))).toUInt8

/-- A message followed by a single one bit, zeros and its length in bits, filling whole blocks. -/
def pad (message : List UInt8) : List UInt8 :=
  let size := message.length
  message ++ 0x80 :: List.replicate ((119 - size % 64) % 64) 0 ++ bigEndian 8 (8 * size)

/-- Bytes as big-endian words. -/
def words (read : List UInt32) : List UInt8 → List UInt32
  | a :: b :: c :: d :: rest =>
    words
      (((a.toUInt32 <<< 24) ||| (b.toUInt32 <<< 16) ||| (c.toUInt32 <<< 8) ||| d.toUInt32) :: read)
      rest
  | _ => read.reverse

/-- A block of sixteen words, extended to eighty: each further word combines four earlier ones. -/
def extend (block : List UInt32) : Array UInt32 :=
  (List.range 64).foldl
    (fun w i =>
      w.push (rotate
        (w.getD (i + 13) 0 ^^^ w.getD (i + 8) 0 ^^^ w.getD (i + 2) 0 ^^^ w.getD i 0) 1))
    block.toArray

/-- The function and the constant of a round. -/
def mix (round : Nat) (s : State) : UInt32 × UInt32 :=
  if round < 20 then ((s.b &&& s.c) ||| (~~~s.b &&& s.d), 0x5A827999)
  else if round < 40 then (s.b ^^^ s.c ^^^ s.d, 0x6ED9EBA1)
  else if round < 60 then ((s.b &&& s.c) ||| (s.b &&& s.d) ||| (s.c &&& s.d), 0x8F1BBCDC)
  else (s.b ^^^ s.c ^^^ s.d, 0xCA62C1D6)

/-- One round, with its number and its word. -/
def step (s : State) (round : Nat) (word : UInt32) : State :=
  let (f, k) := mix round s
  ⟨rotate s.a 5 + f + s.e + k + word, s.a, rotate s.b 30, s.c, s.d⟩

/-- Fold a block into a state. -/
def compress (s : State) (block : List UInt32) : State :=
  let w := extend block
  let t := (List.range 80).foldl (fun t i => step t i (w.getD i 0)) s
  ⟨s.a + t.a, s.b + t.b, s.c + t.c, s.d + t.d, s.e + t.e⟩

/-- Fold all blocks of sixteen words into a state. -/
def absorb : Nat → State → List UInt32 → State
  | 0, s, _ => s
  | blocks + 1, s, ws => absorb blocks (compress s (ws.take 16)) (ws.drop 16)

/-- A word as eight hexadecimal digits. -/
def hex (word : UInt32) : List Char :=
  (List.range 8).map fun i => Nat.digitChar ((word.toNat >>> (4 * (7 - i))) % 16)

/-- The digest of the UTF-8 bytes of a text, as forty hexadecimal digits in lower case. -/
def sha1 (s : String) : String :=
  let ws := words [] (pad s.toUTF8.toList)
  let t := absorb (ws.length / 16) initial ws
  String.ofList (hex t.a ++ hex t.b ++ hex t.c ++ hex t.d ++ hex t.e)

end Sequencer.Digest
