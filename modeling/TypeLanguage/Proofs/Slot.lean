/-
This file holds what is said about a value and the slot that it is written in. A slot
is the type that a place demands: the type of the whole, of the elements of a vector,
or of a parameter. How a value looks once it is read back, which objects stand where
they do not belong, and what holds of all its slots are all told by one recursion
through the value, which takes the type of each part from the schema.
-/

import TypeLanguage.Codec.Decode
import TypeLanguage.Proofs.FlagWords

namespace TypeLanguage

/-- The type that the elements of a vector have in a slot of this type. -/
def FieldType.element : FieldType → FieldType
  | vector element | bareVector element => element
  | _ => boxed none

/-- The name of the type that an object in a slot of this type has to be of. -/
def FieldType.typeName? : FieldType → Option String
  | boxed typeName => typeName
  | _ => none

namespace Value

/-- Whether a value has no values inside it. -/
def isLeaf : Value → Bool
  | vector _ | object .. => false
  | _ => true

/-- What holds of values without parts, and of the others if it does of their parts,
holds of every value. -/
theorem induction {motive : Value → Prop} (leaf : ∀ value : Value, value.isLeaf → motive value)
    (vector : ∀ items, (∀ item ∈ items, motive item) → motive (.vector items))
    (object : ∀ id name fields, (∀ field ∈ fields, motive field.2) →
      motive (.object id name fields)) (value : Value) : motive value := by
  refine @Value.rec motive (fun items => ∀ item ∈ items, motive item)
    (fun fields => ∀ field ∈ fields, motive field.2) (fun field => motive field.2)
    (fun _ => leaf _ rfl) (fun _ => leaf _ rfl) (fun _ => leaf _ rfl) (fun _ => leaf _ rfl)
    (fun _ => leaf _ rfl) (fun _ => leaf _ rfl) (fun _ => leaf _ rfl) (fun _ => leaf _ rfl)
    vector object (leaf _ rfl) nofun (fun head items ofHead ofItems item member => ?_) nofun
    (fun head fields ofHead ofFields field member => ?_) (fun _ _ ofValue => ofValue) value
  · rcases List.mem_cons.1 member with rfl | later
    · exact ofHead
    · exact ofItems item later
  · rcases List.mem_cons.1 member with rfl | later
    · exact ofHead
    · exact ofFields field later

/-! ### Nesting -/

mutual

/-- How deeply objects and vectors are nested; other values take up no level. -/
def nesting : Value → Nat
  | .vector items => nestingOfItems items + 1
  | .object _ _ fields => nestingOfFields fields + 1
  | _ => 0

/-- The deepest nesting among values. -/
def nestingOfItems : List Value → Nat
  | [] => 0
  | item :: items => max item.nesting (nestingOfItems items)

/-- The deepest nesting among fields. -/
def nestingOfFields : List (String × Value) → Nat
  | [] => 0
  | (_, value) :: fields => max value.nesting (nestingOfFields fields)

end

theorem nesting_le_nestingOfItems {items : List Value} {item : Value} (member : item ∈ items) :
    item.nesting ≤ nestingOfItems items := by
  induction items with
  | nil => cases member
  | cons head items inductionHypothesis =>
    rw [nestingOfItems]
    rcases List.mem_cons.1 member with rfl | later
    · exact Nat.le_max_left _ _
    · exact Nat.le_trans (inductionHypothesis later) (Nat.le_max_right _ _)

theorem nesting_le_nestingOfFields {fields : List (String × Value)} {field : String × Value}
    (member : field ∈ fields) : field.2.nesting ≤ nestingOfFields fields := by
  induction fields with
  | nil => cases member
  | cons head fields inductionHypothesis =>
    rw [nestingOfFields]
    rcases List.mem_cons.1 member with rfl | later
    · exact Nat.le_max_left _ _
    · exact Nat.le_trans (inductionHypothesis later) (Nat.le_max_right _ _)

/-! ### What holds of every slot -/

mutual

/-- Whether something holds of a value in its slot and of everything inside it in
slots of their own. -/
def InEverySlot (schema : Schema) (holds : FieldType → Value → Prop) (type : FieldType) :
    Value → Prop
  | .vector items => holds type (.vector items) ∧ InEveryItem schema holds type.element items
  | .object id name fields =>
    holds type (.object id name fields) ∧
      ∀ constructor, schema.get? id = some constructor →
        InEveryField schema holds fields constructor.params
  | value => holds type value

/-- The same for the elements of a vector. -/
def InEveryItem (schema : Schema) (holds : FieldType → Value → Prop) (type : FieldType) :
    List Value → Prop
  | [] => True
  | item :: items =>
    InEverySlot schema holds type item ∧ InEveryItem schema holds type items

/-- The same for the fields of an object. -/
def InEveryField (schema : Schema) (holds : FieldType → Value → Prop) :
    List (String × Value) → List Param → Prop
  | (_, value) :: fields, param :: params =>
    InEverySlot schema holds param.type value ∧ InEveryField schema holds fields params
  | _, _ => True

end

section

variable {schema : Schema} {holds : FieldType → Value → Prop}

theorem InEverySlot.here {type : FieldType} {value : Value}
    (everywhere : value.InEverySlot schema holds type) : holds type value := by
  cases value with
  | vector items => exact everywhere.1
  | object id name fields => exact everywhere.1
  | _ => exact everywhere

theorem InEveryItem.of_mem {type : FieldType} {items : List Value}
    (everywhere : InEveryItem schema holds type items) {item : Value} (member : item ∈ items) :
    item.InEverySlot schema holds type := by
  induction items with
  | nil => cases member
  | cons head items inductionHypothesis =>
    rcases List.mem_cons.1 member with rfl | later
    · exact everywhere.1
    · exact inductionHypothesis everywhere.2 later

theorem InEveryField.of_mem {fields : List (String × Value)} {params : List Param}
    (everywhere : InEveryField schema holds fields params) {value : Value} {param : Param}
    (member : (value, param) ∈ (fields.map Prod.snd).zip params) :
    value.InEverySlot schema holds param.type := by
  induction fields generalizing params with
  | nil => cases member
  | cons head fields inductionHypothesis =>
    cases params with
    | nil => cases member
    | cons headParam params =>
      rcases List.mem_cons.1 member with same | later
      · obtain ⟨rfl, rfl⟩ := Prod.mk.inj same
        exact everywhere.1
      · exact inductionHypothesis everywhere.2 later

end

/-! ### The value read back -/

/-- A value without parts as it is read back from the slot of a type: whether a byte
string is a text hangs on the type and, in the slot of a text, on its content. -/
def normalLeaf : FieldType → Value → Value
  | .bytes, .string text => .bytes text.toUTF8
  | .string, .bytes content => Codec.stringOfBytes content
  | _, value => value

/-- The word that a flags field stores; nothing stands for zero. -/
def storedWord : Value → UInt32
  | .int number => number.toUInt32
  | _ => 0

/-- A flags field that can be written holds no further values. -/
theorem isLeaf_of_stored {name : String} {value : Value} {word : UInt32}
    (stored : FlagWords.stored name value = .ok word) :
    value.isLeaf = true ∧ value.storedWord = word := by
  cases value with
  | int number => exact ⟨rfl, Except.ok.inj stored⟩
  | nothing => exact ⟨rfl, Except.ok.inj stored⟩
  | _ => cases stored

/-- A field that counts as absent holds no further values. -/
theorem isLeaf_of_absent {type : FieldType} {value : Value}
    (absent : ¬ value.isPresentAs type = true) : value.isLeaf = true := by
  cases value with
  | vector items => exact absurd rfl absent
  | object id name fields => exact absurd rfl absent
  | _ => rfl

mutual

/-- The value that is read back from what is written of a value in the slot of a type.
Objects take the names of their constructors, words of flags say which fields are
present, and conditional fields that count as absent hold nothing. -/
def normal (schema : Schema) (type : FieldType) : Value → Value
  | .vector items => .vector (normalItems schema type.element items)
  | .object id name fields =>
    match schema.get? id with
    | some constructor =>
      .object id constructor.name
        (normalFields schema
          (FlagWords.recomputed constructor.params
            ((fields.map Prod.snd).zip constructor.params))
          fields constructor.params)
    | none => .object id name fields
  | value => normalLeaf type value

/-- The elements that are read back. -/
def normalItems (schema : Schema) (type : FieldType) : List Value → List Value
  | [] => []
  | item :: items => item.normal schema type :: normalItems schema type items

/-- The fields that are read back, where a word of flags is recomputed from its name and
the word stored. -/
def normalFields (schema : Schema) (recomputed : String → UInt32 → UInt32) :
    List (String × Value) → List Param → List (String × Value)
  | (name, value) :: fields, param :: params =>
    (name,
      if param.type = .flags then .int (recomputed param.name value.storedWord).toInt32
      else if param.flag.isSome ∧ ¬ value.isPresentAs param.type then .nothing
      else value.normal schema param.type) ::
      normalFields schema recomputed fields params
  | _, _ => []

end

/-! ### Objects where they do not belong -/

/-- Whether an object in a slot that names a type has a constructor of that type, or a
function. -/
def Belongs (schema : Schema) : FieldType → Value → Prop
  | .boxed (some typeName), .object id _ _ =>
    ∀ constructor, schema.get? id = some constructor →
      constructor.category = .functions ∨ constructor.typeName = typeName
  | _, _ => True

mutual

/-- The first object, in the order of writing, that does not belong to the type that its
slot names: the name of the type, and the object's identifier. -/
def stranger? (schema : Schema) (type : FieldType) : Value → Option (String × UInt32)
  | .vector items => strangerOfItems? schema type.element items
  | .object id _ fields =>
    match schema.get? id with
    | some constructor =>
      if Codec.isExpected type.typeName? constructor then
        strangerOfFields? schema fields constructor.params
      else some (type.typeName?.getD "", id)
    | none => none
  | _ => none

/-- The first stranger in the elements of a vector. -/
def strangerOfItems? (schema : Schema) (type : FieldType) :
    List Value → Option (String × UInt32)
  | [] => none
  | item :: items => (item.stranger? schema type).or (strangerOfItems? schema type items)

/-- The first stranger in the fields of an object. -/
def strangerOfFields? (schema : Schema) :
    List (String × Value) → List Param → Option (String × UInt32)
  | (_, value) :: fields, param :: params =>
    (value.stranger? schema param.type).or (strangerOfFields? schema fields params)
  | _, _ => none

end

theorem belongs_object_iff {schema : Schema} {type : FieldType} {id : UInt32} {name : String}
    {fields : List (String × Value)} :
    Belongs schema type (.object id name fields) ↔
      ∀ constructor, schema.get? id = some constructor →
        Codec.isExpected type.typeName? constructor = true := by
  cases type with
  | boxed typeName =>
    cases typeName with
    | none => exact ⟨fun _ _ _ => rfl, fun _ => trivial⟩
    | some typeName => simp [Belongs, FieldType.typeName?, Codec.isExpected]
  | _ => exact ⟨fun _ _ _ => rfl, fun _ => trivial⟩

/-- There is no stranger just if every object belongs where it stands. -/
theorem stranger?_eq_none_iff {schema : Schema} (type : FieldType) (value : Value) :
    value.stranger? schema type = none ↔ value.InEverySlot schema (Belongs schema) type := by
  induction value using induction generalizing type with
  | leaf value isLeaf =>
    cases value with
    | vector items => cases isLeaf
    | object id name fields => cases isLeaf
    | _ => cases type with
      | boxed typeName => cases typeName <;> exact ⟨fun _ => trivial, fun _ => rfl⟩
      | _ => exact ⟨fun _ => trivial, fun _ => rfl⟩
  | vector items ofItems =>
    have belongs : Belongs schema type (.vector items) := by
      unfold Belongs
      split <;> trivial
    rw [stranger?, InEverySlot, and_iff_right belongs]
    clear belongs
    generalize type.element = element
    induction items with
    | nil => exact ⟨fun _ => trivial, fun _ => rfl⟩
    | cons head items inductionHypothesis =>
      have rest : strangerOfItems? schema element items = none ↔
          InEveryItem schema (Belongs schema) element items :=
        inductionHypothesis fun item later => ofItems item (List.mem_cons_of_mem _ later)
      rw [strangerOfItems?, InEveryItem, Option.or_eq_none_iff, ofItems head List.mem_cons_self,
        rest]
  | object id name fields ofFields =>
    have inFields (params : List Param) : strangerOfFields? schema fields params = none ↔
        InEveryField schema (Belongs schema) fields params := by
      induction fields generalizing params with
      | nil => exact ⟨fun _ => trivial, fun _ => rfl⟩
      | cons head fields inductionHypothesis =>
        cases params with
        | nil => exact ⟨fun _ => trivial, fun _ => rfl⟩
        | cons param params =>
          rw [strangerOfFields?, InEveryField, Option.or_eq_none_iff,
            ofFields head List.mem_cons_self,
            inductionHypothesis fun field later => ofFields field (List.mem_cons_of_mem _ later)]
    rw [stranger?, InEverySlot, belongs_object_iff]
    cases found : schema.get? id with
    | none => exact ⟨fun _ => ⟨nofun, nofun⟩, fun _ => rfl⟩
    | some constructor =>
      simp only [Option.some.injEq, forall_eq']
      by_cases expected : Codec.isExpected type.typeName? constructor = true
      · rw [if_pos expected, inFields, and_iff_right expected]
      · rw [if_neg expected]
        exact ⟨nofun, fun both => absurd both.1 expected⟩

end Value

end TypeLanguage
