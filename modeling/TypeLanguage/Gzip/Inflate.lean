/-
This file expands compressed data in the DEFLATE format. The data is a string of
bits, read from the lowest bit of each byte on, that holds blocks; a block is
either stored bytes or a run of symbols under two Huffman codes. A symbol is a byte
to put out, a copy of bytes put out before, or the end of the block.

A Huffman code is canonical, so it is given by the length of the code word of each
symbol, and a symbol is found bit by bit: among the words of one length, read as
numbers, the words in use are consecutive.

The data is taken in portions of 32 KiB and put out in windows of 32 KiB. The output is
limited, but the limit acts only where a portion is used up or a window is complete: the
output runs past the limit up to there, so that a fault before it is still found.
-/

import TypeLanguage.Library

namespace TypeLanguage.Gzip

/-- Why expansion ended before the data did. -/
inductive Halt
  /-- The data ends within a block. -/
  | truncated
  /-- The data follows no valid encoding. -/
  | corrupt
  /-- The output is past its limit at the end of a portion or a window. -/
  | full
  deriving DecidableEq, Repr

/-- The data to be expanded, and the limit on the output. -/
structure Packed where
  data : ByteArray
  /-- The position where the portions begin. -/
  origin : Nat
  limit : Nat

/-- The bit to be read next, and the output so far. -/
structure Progress where
  bit : Nat
  output : ByteArray

/-- A step of the expansion. -/
abbrev Inflater := EStateM Halt Progress

/-- The size of a portion. -/
def portionSize : Nat := 32768

/-- The size of a window. -/
def windowSize : Nat := 32768

namespace Inflater

variable (packed : Packed)

/-! ### Bits -/

/-- Goes on to a byte of the data, unless the limit is passed and a portion is used up. -/
def enter (place : Nat) : Inflater Unit := fun progress =>
  if packed.limit < progress.output.size ∧ (place - packed.origin) % portionSize = 0 then
    .error .full progress
  else .ok () progress

/-- The next bit of a byte that is begun or entered. -/
def innerBit : Inflater Nat := fun progress =>
  let place := progress.bit / 8
  if inside : place < packed.data.size then
    .ok ((packed.data[place].toNat >>> (progress.bit % 8)) % 2)
      { progress with bit := progress.bit + 1 }
  else .error .truncated progress

/-- The next bit. -/
def bit : Inflater Nat := do
  let next := (← get).bit
  if next % 8 = 0 then enter packed (next / 8)
  innerBit packed

/-- The next `count` bits as a number, the lowest bit first. -/
def bits : (count : Nat) → Inflater Nat
  | 0 => return 0
  | count + 1 => do
    let low ← bit packed
    let high ← bits count
    return low + 2 * high

/-- Passes over the bits that are left of a byte begun. -/
def align : Inflater Unit := fun progress =>
  .ok () { progress with bit := (progress.bit + 7) / 8 * 8 }

/-- The next byte, where no byte is begun but the next one is entered. -/
def innerByte : Inflater UInt8 := fun progress =>
  let place := progress.bit / 8
  if inside : place < packed.data.size then
    .ok packed.data[place] { progress with bit := progress.bit + 8 }
  else .error .truncated progress

/-- The next byte, where no byte is begun. -/
def byte : Inflater UInt8 := do
  enter packed ((← get).bit / 8)
  innerByte packed

/-! ### Output -/

/-- Puts out a byte, unless the limit is passed and a window is complete. -/
def put (value : UInt8) : Inflater Unit := fun progress =>
  if packed.limit < progress.output.size ∧ progress.output.size % windowSize = 0 then
    .error .full progress
  else .ok () { progress with output := progress.output.push value }

/-- The byte put out `distance` bytes ago; before the first one there are zeros. -/
def earlier (distance : Nat) : Inflater UInt8 := fun progress =>
  let place := progress.output.size - distance
  let value :=
    if inside : distance ≤ progress.output.size ∧ place < progress.output.size then
      progress.output[place]
    else 0
  .ok value progress

/-- Puts out `count` bytes, each the one that came `distance` bytes before it. -/
def copy (distance : Nat) : (count : Nat) → Inflater Unit
  | 0 => return ()
  | count + 1 => do
    put packed (← earlier distance)
    copy distance count

/-- Puts out the next `count` bytes of the data. -/
def storedBytes : (count : Nat) → Inflater Unit
  | 0 => return ()
  | count + 1 => do
    put packed (← byte packed)
    storedBytes count

end Inflater

/-! ### Huffman codes -/

/-- A canonical code. The words of a complete code use up the whole space of words. -/
inductive Huffman
  /-- How many words there are of each length from 1 to 15, and the symbols in the order
  of their words. -/
  | complete (counts : List Nat) (symbols : Array Nat)
  /-- One word, the bit zero. -/
  | single (symbol : Nat)
  /-- No word at all. -/
  | empty

namespace Huffman

/-- Whether every string of bits begins with a word. -/
def isComplete : Huffman → Bool
  | complete _ _ => true
  | single _ => false
  | empty => false

/-- The symbols whose words have the given length. -/
def symbolsOfLength (lengths : Array Nat) (length : Nat) : List Nat :=
  (List.range lengths.size).filter fun symbol => lengths[symbol]? = some length

/-- The code with the given word lengths, where zero stands for a symbol without a
word. A code of two words or more must be complete, and an only word has one bit. -/
def ofLengths? (lengths : Array Nat) : Option Huffman :=
  let groups := (List.range' 1 15).map (symbolsOfLength lengths)
  let counts := groups.map List.length
  match groups.flatten with
  | [] => some empty
  | [symbol] => if lengths[symbol]? = some 1 then some (single symbol) else none
  | symbols =>
    let space := counts.foldl (fun space count => 2 * (space + count)) 0
    if space = 65536 then some (complete counts symbols.toArray) else none

/-- Continues a word whose bits so far make `word`, when the words of its length begin
at `first` and their symbols at `index`; `counts` is for the lengths from the next on. -/
def find (packed : Packed) (symbols : Array Nat) :
    (counts : List Nat) → (word first index : Nat) → Inflater Nat
  | [], _, _, _ => throw .corrupt
  | count :: counts, word, first, index => do
    let word := word + (← Inflater.bit packed)
    if word < first + count then
      match symbols[index + (word - first)]? with
      | some symbol => return symbol
      | none => throw .corrupt
    else find packed symbols counts (2 * word) (2 * (first + count)) (index + count)

/-- The next symbol. -/
def symbol (code : Huffman) (packed : Packed) : Inflater Nat :=
  match code with
  | complete counts symbols => find packed symbols counts 0 0 0
  | single symbol => do
    if (← Inflater.bit packed) = 0 then return symbol else throw .corrupt
  | empty => do
    let _ ← Inflater.bit packed
    throw .corrupt

/-- The code of literals and lengths where a block does not bring its own. -/
def fixedLiterals : Array Nat :=
  (List.replicate 144 8 ++ List.replicate 112 9 ++ List.replicate 24 7 ++
    List.replicate 8 8).toArray

/-- The code of distances where a block does not bring its own. -/
def fixedDistances : Array Nat :=
  (List.replicate 32 5).toArray

end Huffman

/-- The least length, and the number of extra bits, of each length symbol from 257 on. -/
def lengthSymbols : Array (Nat × Nat) :=
  #[(3, 0), (4, 0), (5, 0), (6, 0), (7, 0), (8, 0), (9, 0), (10, 0), (11, 1), (13, 1), (15, 1),
    (17, 1), (19, 2), (23, 2), (27, 2), (31, 2), (35, 3), (43, 3), (51, 3), (59, 3), (67, 4),
    (83, 4), (99, 4), (115, 4), (131, 5), (163, 5), (195, 5), (227, 5), (258, 0)]

/-- The least distance, and the number of extra bits, of each distance symbol. -/
def distanceSymbols : Array (Nat × Nat) :=
  #[(1, 0), (2, 0), (3, 0), (4, 0), (5, 1), (7, 1), (9, 2), (13, 2), (17, 3), (25, 3), (33, 4),
    (49, 4), (65, 5), (97, 5), (129, 6), (193, 6), (257, 7), (385, 7), (513, 8), (769, 8),
    (1025, 9), (1537, 9), (2049, 10), (3073, 10), (4097, 11), (6145, 11), (8193, 12), (12289, 12),
    (16385, 13), (24577, 13)]

/-- The order in which a block gives the word lengths of the code for word lengths. -/
def lengthOrder : List Nat :=
  [16, 17, 18, 0, 8, 7, 9, 6, 10, 5, 11, 4, 12, 3, 13, 2, 14, 1, 15]

namespace Inflater

variable (packed : Packed)

/-! ### Blocks -/

/-- The code with the given word lengths, or a fault if there is none. -/
def code (lengths : Array Nat) : Inflater Huffman :=
  match Huffman.ofLengths? lengths with
  | some code => return code
  | none => throw .corrupt

/-- A base value from a table, with its extra bits added. -/
def extended (table : Array (Nat × Nat)) (index : Nat) : Inflater Nat :=
  match table[index]? with
  | some (least, extra) => do return least + (← bits packed extra)
  | none => throw .corrupt

/-- The symbols of a block, up to its end. Each takes a bit at least, so that `fuel`
bits are enough. -/
def symbols (literals distances : Huffman) : (fuel : Nat) → Inflater Unit
  | 0 => throw .truncated
  | fuel + 1 => do
    let symbol ← literals.symbol packed
    if symbol < 256 then
      put packed (UInt8.ofNat symbol)
      symbols literals distances fuel
    else if symbol = 256 then return ()
    else
      let length ← extended packed lengthSymbols (symbol - 257)
      let distance ← extended packed distanceSymbols (← distances.symbol packed)
      copy packed distance length
      symbols literals distances fuel

/-- The word lengths of a code, themselves coded, until there are `wanted`. Symbol 16
repeats the last length, and 17 and 18 repeat zero. -/
def wordLengths (lengthCode : Huffman) (wanted : Nat) : (fuel : Nat) → Array Nat →
    Inflater (Array Nat)
  | 0, _ => throw .corrupt
  | fuel + 1, lengths =>
    if lengths.size = wanted then return lengths
    else if wanted < lengths.size then throw .corrupt
    else do
      let symbol ← lengthCode.symbol packed
      if symbol < 16 then wordLengths lengthCode wanted fuel (lengths.push symbol)
      else if symbol = 16 then
        match lengths.back? with
        | none => throw .corrupt
        | some last =>
          let count := 3 + (← bits packed 2)
          wordLengths lengthCode wanted fuel (lengths ++ Array.replicate count last)
      else
        let count ← if symbol = 17 then (3 + ·) <$> bits packed 3 else (11 + ·) <$> bits packed 7
        wordLengths lengthCode wanted fuel (lengths ++ Array.replicate count 0)

/-- Word lengths of three bits each, put at the places that the order names. -/
def orderedLengths : List Nat → Array Nat → Inflater (Array Nat)
  | [], lengths => return lengths
  | place :: places, lengths => do
    let length ← bits packed 3
    orderedLengths places (lengths.setIfInBounds place length)

/-- The two codes that a block brings. -/
def ownCodes : Inflater (Huffman × Huffman) := do
  let literalCount := 257 + (← bits packed 5)
  let distanceCount := 1 + (← bits packed 5)
  let lengthCount := 4 + (← bits packed 4)
  if 286 < literalCount ∨ 30 < distanceCount then throw .corrupt
  let lengthLengths ← orderedLengths packed (lengthOrder.take lengthCount) (Array.replicate 19 0)
  let lengthCode ← code lengthLengths
  if !lengthCode.isComplete then throw .corrupt
  let wanted := literalCount + distanceCount
  let lengths ← wordLengths packed lengthCode wanted (wanted + 1) #[]
  let distances ← code (lengths.extract literalCount wanted)
  let literals ← code (lengths.extract 0 literalCount)
  return (literals, distances)

/-- A block of stored bytes: their number, its complement, and the bytes. -/
def storedBlock : Inflater Unit := do
  align
  let length := (← byte packed).toNat + 256 * (← byte packed).toNat
  let complement := (← byte packed).toNat + 256 * (← byte packed).toNat
  if length + complement = 65535 then storedBytes packed length else throw .corrupt

/-- A block of the given kind. -/
def block (kind : Nat) : Inflater Unit := do
  let fuel := 8 * packed.data.size + 1
  match kind with
  | 0 => storedBlock packed
  | 1 =>
    let literals ← code Huffman.fixedLiterals
    let distances ← code Huffman.fixedDistances
    symbols packed literals distances fuel
  | 2 =>
    let (literals, distances) ← ownCodes packed
    symbols packed literals distances fuel
  | _ => throw .corrupt

/-- Blocks up to the one marked as the last. -/
def blocks : (fuel : Nat) → Inflater Unit
  | 0 => throw .truncated
  | fuel + 1 => do
    let last ← bit packed
    let kind ← bits packed 2
    block packed kind
    if last = 1 then return () else blocks fuel

end Inflater

/-- Expands the data from a byte position on. On success, gives the progress whose
next byte is the first one after the compressed data. -/
def inflate (packed : Packed) (start : Nat) : EStateM.Result Halt Progress Unit :=
  (do
    Inflater.blocks packed (8 * packed.data.size + 1)
    Inflater.align : Inflater Unit) ⟨8 * start, ByteArray.empty⟩

end TypeLanguage.Gzip
