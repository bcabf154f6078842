/-
This file compares reads under different limits on nesting. A read with more levels left
comes to the same end as one with fewer, unless the latter runs out of levels; so a limit
matters only where it is the error. The levels left may also be counted from the outside
in, by a machine word: it is compared with the limit before it is raised, so that it
never wraps around, however large the limit is.
-/

import TypeLanguage.Proofs.Lockstep

namespace TypeLanguage

namespace Reader

/-- Errors are the same, except that the first reader may reach a limit. -/
def reaching (limit : Nat) : Tolerance where
  excuses error := error = .tooDeep limit
  equates := Eq
  equates_self _ _ := rfl

variable {α : Type} {limit : Nat} {first second : Reader α}

/-- A success of the first reader is one of the second. -/
theorem InStep.ok (inStep : InStep Eq (reaching limit) first second) {start stop : Cursor}
    {value : α} (success : first start = .ok value stop) : second start = .ok value stop := by
  have ends := inStep (Eq.refl start)
  rw [success] at ends
  generalize second start = result at ends ⊢
  cases ends with
  | value same => rw [same]

theorem InStep.run (inStep : InStep Eq (reaching limit) first second) (data : ByteArray) :
    first.run data = .error (.tooDeep limit) ∨ first.run data = second.run data := by
  have ends := inStep (Eq.refl (Cursor.ofBytes data))
  rw [Reader.run, Reader.run]
  revert ends
  generalize first (.ofBytes data) = outcome
  generalize second (.ofBytes data) = parallel
  intro ends
  cases ends with
  | value => exact Or.inr rfl
  | error same => exact Or.inr (congrArg Except.error same)
  | excused reached => exact Or.inl (congrArg Except.error reached)

end Reader

namespace Codec

variable {codec : Codec}

/-! ### More levels -/

/-- The codec with another limit on nesting. -/
def withDepth (codec : Codec) (limit : Nat) : Codec :=
  { codec with maxDepth := limit }

/-- The limit is looked at only where the levels have run out. -/
theorem readPart_withDepth (limit : Nat) (deeper : Part → Reader Value) (part : Part) :
    (codec.withDepth limit).readPart deeper part = codec.readPart deeper part :=
  rfl

theorem readField_withDepth (limit : Nat) (boxed : Option String → Reader Value)
    (deeper : Part → Reader Value) (type : FieldType) :
    (codec.withDepth limit).readField boxed deeper type = codec.readField boxed deeper type :=
  rfl

theorem readWithin_inStep_of_le {limit other room more : Nat} (enough : room ≤ more)
    (part : Part) :
    Reader.InStep Eq (Reader.reaching limit) ((codec.withDepth limit).readWithin room part)
      ((codec.withDepth other).readWithin more part) := by
  induction room generalizing more part with
  | zero => exact fun _ _ _ => .excused rfl _
  | succ room inductionHypothesis =>
    obtain ⟨more, rfl⟩ : ∃ less, more = less + 1 := ⟨more - 1, by omega⟩
    have deeper (part : Part) := inductionHypothesis (Nat.le_of_succ_le_succ enough) part
    rw [readWithin, readWithin, readPart_withDepth, readPart_withDepth]
    exact readPart_inStep findInStep_self (Reader.rawInStep_eq _) deeper
      (fun data part => (deeper part).inside rfl) part

theorem readFieldWithin_inStep_of_le {limit other room more : Nat} (enough : room ≤ more)
    (type : FieldType) :
    Reader.InStep Eq (Reader.reaching limit) ((codec.withDepth limit).readFieldWithin room type)
      ((codec.withDepth other).readFieldWithin more type) := by
  rw [readFieldWithin, readFieldWithin, readField_withDepth, readField_withDepth]
  exact readField_inStep findInStep_self (Reader.rawInStep_eq _)
    (fun part => readWithin_inStep_of_le (Nat.sub_le_sub_right enough 1) part)
    (fun typeName => readWithin_inStep_of_le enough (.boxed typeName)) type

/-- A higher limit makes no difference to a read that does not reach the lower one. -/
theorem decode_withDepth_of_le {limit more : Nat} (enough : limit ≤ more) (data : ByteArray) :
    (codec.withDepth limit).decode data = .error (.tooDeep limit) ∨
      (codec.withDepth limit).decode data = (codec.withDepth more).decode data :=
  (readWithin_inStep_of_le enough (.boxed none)).atomically.run data

/-! ### Counting up -/

/-- Below a limit that is a word itself, the next depth does not wrap around. -/
theorem toNat_next_depth {width : Nat} {limit depth : BitVec width} (inside : depth < limit) :
    (depth + 1).toNat = depth.toNat + 1 := by
  have below : depth.toNat < limit.toNat := BitVec.lt_def.1 inside
  have bound := limit.isLt
  have one : (1 : BitVec width).toNat = 1 :=
    Nat.mod_eq_of_lt (show 1 < 2 ^ width by omega)
  rw [BitVec.toNat_add, one, Nat.mod_eq_of_lt (by omega)]

/-- Reads a part at a depth, counted by a machine word. -/
def readAtDepth {width : Nat} (codec : Codec) (limit depth : BitVec width) :
    Part → Reader Value := fun part =>
  if _inside : depth < limit then codec.readPart (readAtDepth codec limit (depth + 1)) part
  else throw (.tooDeep limit.toNat)
termination_by limit.toNat - depth.toNat
decreasing_by
  rw [toNat_next_depth _inside]
  exact Nat.sub_succ_lt_self _ _ (BitVec.lt_def.1 _inside)

/-- The depth and the levels left make up the limit. -/
theorem readAtDepth_eq {width : Nat} (limit depth : BitVec width) :
    codec.readAtDepth limit depth =
      (codec.withDepth limit.toNat).readWithin (limit.toNat - depth.toNat) := by
  generalize left : limit.toNat - depth.toNat = room
  induction room generalizing depth with
  | zero =>
    have reached : ¬ depth < limit := by bv_omega
    funext part
    rw [readAtDepth, dif_neg reached]
    rfl
  | succ room inductionHypothesis =>
    have inside : depth < limit := by bv_omega
    have next := toNat_next_depth inside
    funext part
    rw [readAtDepth, dif_pos inside, inductionHypothesis (depth + 1) (by omega), readWithin,
      readPart_withDepth]

end Codec

end TypeLanguage
