/-
This file holds the cursor that all reading goes through: a byte array and a
position in it, which never passes the end because the bound is part of the type.
A raw read either takes exactly the bytes asked for, or fails and leaves the
cursor where it was; a composed read that fails leaves the cursor after the raw
reads that succeeded, unless it is made atomic.
-/

import TypeLanguage.Bytes.Word
import TypeLanguage.DecodeError

namespace TypeLanguage

/-- A position in a byte array. -/
structure Cursor where
  data : ByteArray
  position : Nat
  position_le : position ≤ data.size

/-- A read: a result, or an error, and the cursor after it. -/
abbrev Reader := EStateM DecodeError Cursor

namespace Cursor

/-- The cursor at the start of a byte array. -/
def ofBytes (data : ByteArray) : Cursor :=
  ⟨data, 0, Nat.zero_le _⟩

/-- How many bytes are left to read. -/
def remaining (cursor : Cursor) : Nat :=
  cursor.data.size - cursor.position

/-- The cursor `count` bytes further on. -/
def advance (cursor : Cursor) (count : Nat) (inside : count ≤ cursor.remaining) : Cursor :=
  ⟨cursor.data, cursor.position + count, by
    have bound := cursor.position_le
    unfold remaining at inside
    omega⟩

@[simp] theorem position_advance (cursor : Cursor) (count : Nat)
    (inside : count ≤ cursor.remaining) :
    (cursor.advance count inside).position = cursor.position + count := rfl

end Cursor

namespace Reader

/-- Takes the next `width` bytes. -/
def octets (width : Nat) : Reader (Octets width) := fun cursor =>
  if inside : width ≤ cursor.remaining then
    .ok ⟨cursor.data.extract cursor.position (cursor.position + width), by
      have bound := cursor.position_le
      unfold Cursor.remaining at inside
      rw [ByteArray.size_extract]
      omega⟩ (cursor.advance width inside)
  else .error .truncated cursor

/-- Takes the next byte. -/
def byte : Reader UInt8 := do
  let taken ← octets 1
  return UInt8.ofNat taken.toNat

/-- Takes the next `count` bytes. -/
def take (count : Nat) : Reader ByteArray := do
  let taken ← octets count
  return taken.bytes

/-- Passes over the next `count` bytes. -/
def skip (count : Nat) : Reader Unit := do
  let _ ← octets count
  return ()

/-- The number of bytes left to read. -/
def remaining : Reader Nat := do
  return (← get).remaining

/-- The read that puts the cursor back when it fails. -/
def atomically {α : Type} (read : Reader α) : Reader α := fun cursor =>
  match read cursor with
  | .ok value after => .ok value after
  | .error error _ => .error error cursor

/-- The read of another byte array; the cursor itself does not move. -/
def inside {α : Type} (data : ByteArray) (read : Reader α) : Reader α := fun cursor =>
  match read (Cursor.ofBytes data) with
  | .ok value _ => .ok value cursor
  | .error error _ => .error error cursor

/-- Repeats a read, with the results so far in reverse. -/
def replicateOnto {α : Type} (read : Reader α) : (count : Nat) → List α → Reader (List α)
  | 0, done => return done.reverse
  | count + 1, done => do
    let value ← read
    replicateOnto read count (value :: done)

/-- Repeats a read `count` times. -/
def replicate {α : Type} (count : Nat) (read : Reader α) : Reader (List α) :=
  replicateOnto read count []

/-- The result of a read of a whole byte array from its start. -/
def run {α : Type} (read : Reader α) (data : ByteArray) : Except DecodeError α :=
  match read (Cursor.ofBytes data) with
  | .ok value _ => .ok value
  | .error error _ => .error error

end Reader

end TypeLanguage
