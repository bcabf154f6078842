/-
This file proves when the order in which the constructors of a schema are gone through makes
no difference to what is loaded: it makes none if no two of them have one name. The order
counts only where a bare type is looked up by name, since of several entries the last one is
taken; a type is looked up by its only entry, and the new definitions come last in any order.
Where constructors share a name, the same text may be loaded with two results.
-/

import TypeLanguage.Proofs.LoadOrder

namespace TypeLanguage

namespace Directory

variable {first second : Directory}

/-! ### Directories that find the same -/

/-- Two directories resolve bare types alike, or refuse them alike. -/
structure FindsLike (first second : Directory) : Prop where
  byName : ∀ name, first.bareByName name = second.bareByName name
  byType : ∀ typeName, first.bareByType typeName = second.bareByType typeName

theorem FindsLike.simpleType_eq (alike : first.FindsLike second) (head : TypeHead) :
    first.simpleType head = second.simpleType head := by
  unfold simpleType
  simp only [alike.byName, alike.byType]

theorem FindsLike.fieldType_eq (alike : first.FindsLike second) (generics : List (List Char))
    (type : TypeRef) : first.fieldType generics type = second.fieldType generics type := by
  induction type with
  | plain head => simp only [fieldType, alike.simpleType_eq]
  | applied head argument inductionHypothesis =>
    simp only [fieldType, alike.simpleType_eq, inductionHypothesis]

/-- Definitions make the same constructors over both. -/
theorem FindsLike.constructor_eq (alike : first.FindsLike second) :
    first.constructor = second.constructor := by
  have param_eq (generics : List (List Char)) : first.param generics = second.param generics := by
    funext written
    cases written with
    | flags name => rfl
    | typed name type flag => simp only [param, alike.fieldType_eq]
  funext definition
  simp only [constructor, param_eq]

/-! ### Entries in another order -/

theorem bareByType_of_forall_ne {directory : Directory} {typeName : String}
    (several : ∀ id, directory.ofType typeName ≠ [id]) :
    directory.bareByType typeName = .error (.unresolvedBareType ("%" ++ typeName)) := by
  rw [bareByType]
  split
  · next single => exact absurd single (several _)
  · rfl

/-- Which entry is the only one of a type does not depend on their order. -/
theorem bareByType_eq_of_mem_iff
    (same : ∀ entry, entry ∈ first.entries ↔ entry ∈ second.entries) (typeName : String) :
    first.bareByType typeName = second.bareByType typeName := by
  have single (id : UInt32) : first.ofType typeName = [id] ↔ second.ofType typeName = [id] := by
    simp only [ofType_eq_singleton_iff, same]
  by_cases isSingle : ∃ id, first.ofType typeName = [id]
  · obtain ⟨id, isSingle⟩ := isSingle
    rw [bareByType, bareByType, isSingle, (single id).1 isSingle]
  · have several := not_exists.1 isSingle
    rw [bareByType_of_forall_ne several,
      bareByType_of_forall_ne fun id isSingle => several id ((single id).2 isSingle)]

/-- Names are looked up among the new definitions first, and then among constructors of which
none shares its name. -/
theorem named?_ofSchema {schema : Schema}
    (distinct : (schema.constructors.map Constructor.name).Nodup) (order : Schema.Order)
    (definitions : List Definition) (name : String) :
    (ofSchema order schema definitions).named? name =
      (((definitions.map ofDefinition).reverse.find? fun entry => entry.name = name).or
        ((schema.constructors.find? fun constructor => constructor.name = name).map
          ofConstructor)).map DirectoryEntry.id := by
  have walked : (order.walk schema).reverse.Perm schema.constructors :=
    (List.reverse_perm _).trans (order.perm schema)
  have last := find?_eq_of_perm distinct walked name
  have entered : ((order.walk schema).map ofConstructor).reverse.find?
      (fun entry => entry.name = name) =
        ((order.walk schema).reverse.find? fun constructor => constructor.name = name).map
          ofConstructor := by
    rw [← List.map_reverse, List.find?_map]
    rfl
  rw [named?_eq, ofSchema, List.reverse_append, List.find?_append, entered, last]

theorem findsLike_ofSchema {schema : Schema}
    (distinct : (schema.constructors.map Constructor.name).Nodup) (order other : Schema.Order)
    (definitions : List Definition) :
    (ofSchema order schema definitions).FindsLike (ofSchema other schema definitions) where
  byName name := by
    rw [bareByName, bareByName, named?_ofSchema distinct order, named?_ofSchema distinct other]
  byType := bareByType_eq_of_mem_iff fun entry => by
    simp only [ofSchema, List.mem_append, List.mem_map, order.mem_walk_iff, other.mem_walk_iff]

end Directory

namespace Schema

/-! ### Loading over a schema -/

/-- If the constructors of a schema have different names, it does not matter in which order
they are gone through: a text extends the schema in one way, or is refused for one fault. -/
theorem extend_eq_of_nodup [Crc32] {schema : Schema}
    (distinct : (schema.constructors.map Constructor.name).Nodup) (text : String)
    (order other : Order) : schema.extend text order = schema.extend text other := by
  rw [extend, extend]
  refine bind_congr fun definitions => ?_
  rw [addDefinitions, addDefinitions,
    (Directory.findsLike_ofSchema distinct order other definitions).constructor_eq]

/-- The order by falling identifier. -/
def Order.falling : Order :=
  ⟨fun schema => schema.constructors.reverse, fun _ => List.reverse_perm _⟩

/-- Two constructors of one name. -/
def twins : Schema :=
  empty.insertAll [⟨1, "a", "A", .types, [⟨"x", .int, none⟩]⟩,
    ⟨2, "a", "A", .types, [⟨"x", .long, none⟩]⟩]

-- Of constructors that share a name the last one in the order is meant.
example : twins.extend "c#3 v:a = C;" .rising =
    .ok (twins.insert ⟨3, "c", "C", .types, [⟨"v", .bare 2, none⟩]⟩) := by
  with_unfolding_all rfl

example : twins.extend "c#3 v:a = C;" .falling =
    .ok (twins.insert ⟨3, "c", "C", .types, [⟨"v", .bare 1, none⟩]⟩) := by
  with_unfolding_all rfl

end Schema

end TypeLanguage
