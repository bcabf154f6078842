/-
This file holds SHA-1. The message is padded to whole blocks of 64 bytes, each
block is expanded to eighty words, and the words are mixed into a state of five
words, from which the digest of twenty bytes is read.
-/

import TypeLanguage.Library

namespace TypeLanguage.Sha1

/-- The five chaining words. -/
structure State where
  a : UInt32
  b : UInt32
  c : UInt32
  d : UInt32
  e : UInt32
  deriving DecidableEq, Repr

/-- The state before the first block. -/
def initial : State :=
  ⟨0x67452301, 0xefcdab89, 0x98badcfe, 0x10325476, 0xc3d2e1f0⟩

/-- The word with its bits moved up by `count` places, the highest ones reentering below. -/
def rotate (number count : UInt32) : UInt32 :=
  (number <<< count) ||| (number >>> (32 - count))

/-! ### Padding -/

/-- How many zero bytes complete a block after the mark and before the length. -/
def paddingZeros (size : Nat) : Nat :=
  (119 - size % 64) % 64

/-- The message with its mark, its zeros and its length in bits as a 64-bit number. -/
def pad (message : ByteArray) : ByteArray :=
  message ++ ((0x80 : UInt8) :: List.replicate (paddingZeros message.size) 0 ++
    (littleEndian 8 (8 * message.size)).reverse).toByteArray

/-! ### Rounds -/

/-- The byte at a position; positions past the end count as zero. -/
def byteAt (bytes : ByteArray) (position : Nat) : UInt32 :=
  if inside : position < bytes.size then bytes[position].toUInt32 else 0

/-- The big-endian word at a position. -/
def wordAt (bytes : ByteArray) (position : Nat) : UInt32 :=
  (byteAt bytes position <<< 24) ||| (byteAt bytes (position + 1) <<< 16) |||
    (byteAt bytes (position + 2) <<< 8) ||| byteAt bytes (position + 3)

/-- The first `count` words of the schedule of the block at `start`: sixteen from the
block, and then each from four before it. -/
def schedule (bytes : ByteArray) (start : Nat) : (count : Nat) → Vector UInt32 count
  | 0 => #v[]
  | count + 1 =>
    let words := schedule bytes start count
    if late : 16 ≤ count then
      words.push (rotate
        (words[count - 3] ^^^ words[count - 8] ^^^ words[count - 14] ^^^ words[count - 16]) 1)
    else words.push (wordAt bytes (start + 4 * count))

/-- The mixing function and the constant of a round. -/
def mixer (round : Nat) (state : State) : UInt32 :=
  if round < 20 then ((state.b &&& state.c) ||| (~~~state.b &&& state.d)) + 0x5a827999
  else if round < 40 then (state.b ^^^ state.c ^^^ state.d) + 0x6ed9eba1
  else if round < 60 then
    ((state.b &&& state.c) ||| (state.b &&& state.d) ||| (state.c &&& state.d)) + 0x8f1bbcdc
  else (state.b ^^^ state.c ^^^ state.d) + 0xca62c1d6

/-- The state after one round with its word of the schedule. -/
def step (round : Nat) (word : UInt32) (state : State) : State :=
  { a := rotate state.a 5 + mixer round state + state.e + word
    b := state.a
    c := rotate state.b 30
    d := state.c
    e := state.d }

/-- The state after the rounds of a block. -/
def compress (bytes : ByteArray) (start : Nat) (state : State) : State :=
  let words := schedule bytes start 80
  let mixed := Nat.fold 80 (fun round inside state => step round words[round] state) state
  ⟨state.a + mixed.a, state.b + mixed.b, state.c + mixed.c, state.d + mixed.d, state.e + mixed.e⟩

/-- The state after `count` blocks. -/
def absorb (bytes : ByteArray) : (count : Nat) → State → State
  | 0, state => state
  | count + 1, state => absorb bytes count (compress bytes (bytes.size - 64 * (count + 1)) state)

/-- The words of a state, each most significant byte first. -/
def State.bytes (state : State) : ByteArray :=
  ([state.a, state.b, state.c, state.d, state.e].flatMap fun word =>
    (littleEndian 4 word.toNat).reverse).toByteArray

theorem State.size_bytes (state : State) : state.bytes.size = 20 := by
  simp [State.bytes, List.size_toByteArray]

/-- The digest by blocks. -/
def blockDigest (message : ByteArray) : Octets 20 :=
  let padded := pad message
  let state := absorb padded (padded.size / 64) initial
  ⟨state.bytes, state.size_bytes⟩

instance byBlocks : Sha1 :=
  ⟨blockDigest⟩

end TypeLanguage.Sha1
