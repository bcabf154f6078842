/-
This file holds the words of flags that say which conditional fields are present. A
reader collects the words as it meets them and asks them about each condition; a
writer computes them from which fields are present. Of several words of one name the
first one counts.
-/

import TypeLanguage.EncodeError
import TypeLanguage.Value.Basic

namespace TypeLanguage

/-- Words of flags by the names of their parameters. -/
structure FlagWords where
  words : List (String × UInt32)

namespace FlagWords

/-- No words. -/
def empty : FlagWords :=
  ⟨[]⟩

/-- The word of a name. -/
def get? (flags : FlagWords) (name : String) : Option UInt32 :=
  (flags.words.find? fun word => word.1 = name).map Prod.snd

/-- The words with one more after them. -/
def push (flags : FlagWords) (name : String) (word : UInt32) : FlagWords :=
  ⟨flags.words ++ [(name, word)]⟩

/-- Whether a flag is set; without its word it is not. -/
def has (flags : FlagWords) (flag : Flag) : Bool :=
  match flags.get? flag.name with
  | some word => word &&& flag.mask != 0
  | none => false

/-- Sets a bit in the first word of a name. -/
def setFirst (flag : Flag) : List (String × UInt32) → List (String × UInt32)
  | [] => []
  | (name, word) :: words =>
    if name = flag.name then (name, word ||| flag.mask) :: words
    else (name, word) :: setFirst flag words

/-- The words with a flag set; without its word nothing changes. -/
def set (flags : FlagWords) (flag : Flag) : FlagWords :=
  ⟨setFirst flag flags.words⟩

end FlagWords

/-- Whether a conditional field counts as present. A `true` field does if it holds true,
and every other one unless it holds nothing. -/
def Value.isPresentAs (type : FieldType) : Value → Bool
  | .nothing => false
  | .bool value => if type = .trueFlag then value else true
  | _ => true

namespace FlagWords

/-- The bits of the word with a name that some parameter depends on. -/
def usedBits (params : List Param) (name : String) : UInt32 :=
  (params.filterMap Param.flag).foldl
    (fun bits flag => if flag.name = name then bits ||| flag.mask else bits) 0

/-- The word that a flags field holds. -/
def stored (param : String) : Value → Except EncodeError UInt32
  | .int number => .ok number.toUInt32
  | .nothing => .ok 0
  | other => .error (.notFlags param other.kind)

/-- Continues the words of an object with its further fields and their parameters: a
flags field gives a word, kept where no parameter depends on it, and a present
conditional field sets its flag. -/
def compute (params : List Param) (flags : FlagWords) :
    List (Value × Param) → Except EncodeError FlagWords
  | [] => .ok flags
  | (value, param) :: rest =>
    if param.type = .flags then
      match stored param.name value with
      | .ok word => compute params (flags.push param.name (word &&& ~~~usedBits params param.name))
        rest
      | .error error => .error error
    else match param.flag with
      | some flag =>
        if value.isPresentAs param.type then compute params (flags.set flag) rest
        else compute params flags rest
      | none => compute params flags rest

/-- Checks that the words tell exactly which conditional fields are present. -/
def check (object : String) (flags : FlagWords) : List (Value × Param) → Except EncodeError Unit
  | [] => .ok ()
  | (value, param) :: rest =>
    match param.flag with
    | some flag =>
      if param.type ≠ .flags ∧ flags.has flag ≠ value.isPresentAs param.type then
        .error (.flagMismatch object param.name (flags.has flag) flag)
      else check object flags rest
    | none => check object flags rest

end FlagWords

end TypeLanguage
