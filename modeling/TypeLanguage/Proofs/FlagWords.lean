/-
This file proves what the words of flags of an object say. Where the conditions of a
constructor only name words to their left, and no word twice, the writer gives each
word the bits that it was stored with, apart from those that some condition reads,
which are set just where a field is present. A reader that meets these words in turn
finds the same answer to every condition. Conversely a word that was read is written
again as it was, because presence was decided by its bits.
-/

import TypeLanguage.Codec.Flags

/-- A computation succeeds if its first step does and the next one does with the result. -/
theorem Except.bind_eq_ok_iff {ε α β : Type} {first : Except ε α} {next : α → Except ε β}
    {result : β} :
    first >>= next = .ok result ↔ ∃ value, first = .ok value ∧ next value = .ok result := by
  cases first with
  | error error => exact ⟨nofun, fun ⟨_, success, _⟩ => nomatch success⟩
  | ok value =>
    show next value = .ok result ↔ _
    simp only [Except.ok.injEq, exists_eq_left']

/-- What is made of the result of a computation is there if the result is. -/
theorem Except.map_eq_ok_iff {ε α β : Type} {first : Except ε α} {wrap : α → β} {result : β} :
    wrap <$> first = .ok result ↔ ∃ value, first = .ok value ∧ wrap value = result := by
  cases first with
  | error error => exact ⟨nofun, fun ⟨_, success, _⟩ => nomatch success⟩
  | ok value =>
    show Except.ok (wrap value) = .ok result ↔ _
    simp only [Except.ok.injEq, exists_eq_left']

namespace TypeLanguage

/-! ### Words to the left -/

/-- Every parameter of type `#` is unconditional and has a name of its own, and every
condition names one of those to its left. The words declared so far are given. -/
def FlagsInOrder (declared : List String) : List Param → Prop
  | [] => True
  | param :: params =>
    if param.type = .flags then
      param.flag = none ∧ param.name ∉ declared ∧ FlagsInOrder (param.name :: declared) params
    else (∀ flag ∈ param.flag, flag.name ∈ declared) ∧ FlagsInOrder declared params

instance FlagsInOrder.decidable (declared : List String) :
    (params : List Param) → Decidable (FlagsInOrder declared params)
  | [] => .isTrue trivial
  | param :: params => by
    have := FlagsInOrder.decidable (param.name :: declared) params
    have := FlagsInOrder.decidable declared params
    unfold FlagsInOrder
    infer_instance

/-- Every parameter of type `#` has a name of its own, and every condition names one of
those to its left. A parameter of type `#` may itself be conditional. -/
def WordsInOrder (declared : List String) : List Param → Prop
  | [] => True
  | param :: params =>
    (∀ flag ∈ param.flag, flag.name ∈ declared) ∧
      if param.type = .flags then
        param.name ∉ declared ∧ WordsInOrder (param.name :: declared) params
      else WordsInOrder declared params

instance WordsInOrder.decidable (declared : List String) :
    (params : List Param) → Decidable (WordsInOrder declared params)
  | [] => .isTrue trivial
  | param :: params => by
    have := WordsInOrder.decidable (param.name :: declared) params
    have := WordsInOrder.decidable declared params
    unfold WordsInOrder
    infer_instance

theorem FlagsInOrder.wordsInOrder {declared : List String} {params : List Param}
    (inOrder : FlagsInOrder declared params) : WordsInOrder declared params := by
  induction params generalizing declared with
  | nil => trivial
  | cons param params inductionHypothesis =>
    rw [FlagsInOrder] at inOrder
    rw [WordsInOrder]
    by_cases isWord : param.type = .flags
    · rw [if_pos isWord] at inOrder ⊢
      obtain ⟨unconditional, new, others⟩ := inOrder
      rw [unconditional]
      exact ⟨nofun, new, inductionHypothesis others⟩
    · rw [if_neg isWord] at inOrder ⊢
      exact ⟨inOrder.1, inductionHypothesis inOrder.2⟩

/-- A schema all of whose constructors have their words of flags in order. -/
def Schema.FlagsInOrder (schema : Schema) : Prop :=
  ∀ id constructor, schema.get? id = some constructor →
    TypeLanguage.FlagsInOrder [] constructor.params

theorem Schema.flagsInOrder_empty : Schema.empty.FlagsInOrder := by
  intro id constructor found
  rw [Schema.get?_empty] at found
  cases found

theorem Schema.FlagsInOrder.insert {schema : Schema} (inOrder : schema.FlagsInOrder)
    {constructor : Constructor} (also : TypeLanguage.FlagsInOrder [] constructor.params) :
    (schema.insert constructor).FlagsInOrder := by
  intro id other found
  rw [Schema.get?_insert] at found
  split at found
  · cases found
    exact also
  · exact inOrder id other found

/-! ### Single words -/

namespace FlagWords

theorem get?_empty (name : String) : empty.get? name = none := rfl

theorem get?_push (flags : FlagWords) (pushed name : String) (word : UInt32) :
    (flags.push pushed word).get? name =
      (flags.get? name).or (if pushed = name then some word else none) := by
  simp only [get?, push, List.find?_append, List.find?_singleton, decide_eq_true_eq]
  cases flags.words.find? _ with
  | none => split <;> rfl
  | some _ => rfl

theorem find?_setFirst (flag : Flag) (name : String) (words : List (String × UInt32)) :
    ((setFirst flag words).find? fun word => word.1 = name).map Prod.snd =
      if name = flag.name then
        ((words.find? fun word => word.1 = name).map Prod.snd).map (· ||| flag.mask)
      else (words.find? fun word => word.1 = name).map Prod.snd := by
  induction words with
  | nil => simp [setFirst]
  | cons head words inductionHypothesis =>
    obtain ⟨first, word⟩ := head
    by_cases named : first = flag.name
    · subst named
      by_cases same : name = flag.name
      · simp [setFirst, same]
      · simp [setFirst, same, Ne.symm same]
    · rw [setFirst, if_neg named]
      by_cases same : first = name
      · subst same
        simp [named]
      · simpa [same] using inductionHypothesis

theorem get?_set (flags : FlagWords) (flag : Flag) (name : String) :
    (flags.set flag).get? name =
      if name = flag.name then (flags.get? name).map (· ||| flag.mask) else flags.get? name :=
  find?_setFirst flag name flags.words

/-- Whether a flag is set only hangs on the word of its name. -/
theorem has_congr {first second : FlagWords} {flag : Flag}
    (same : first.get? flag.name = second.get? flag.name) : first.has flag = second.has flag := by
  rw [has, has, same]

/-! ### The words of a writer -/

/-- The bit that a field sets in the word of a name. -/
def contribution (name : String) (value : Value) (param : Param) : UInt32 :=
  match param.flag with
  | some flag =>
    if param.type ≠ .flags ∧ flag.name = name ∧ value.isPresentAs param.type then flag.mask else 0
  | none => 0

theorem contribution_of_word {name : String} {value : Value} {param : Param}
    (isWord : param.type = .flags) : contribution name value param = 0 := by
  rw [contribution]
  cases param.flag with
  | none => rfl
  | some flag => exact if_neg fun both => both.1 isWord

theorem contribution_of_none {name : String} {value : Value} {param : Param}
    (unconditional : param.flag = none) : contribution name value param = 0 := by
  rw [contribution, unconditional]

theorem contribution_of_some {name : String} {value : Value} {param : Param} {flag : Flag}
    (isField : param.type ≠ .flags) (conditional : param.flag = some flag) :
    contribution name value param =
      if flag.name = name ∧ value.isPresentAs param.type then flag.mask else 0 := by
  rw [contribution, conditional]
  simp only [isField, ne_eq, not_false_eq_true, true_and]

/-- The bits that fields set in the word of a name. -/
def setBits (name : String) : List (Value × Param) → UInt32
  | [] => 0
  | (value, param) :: fields => contribution name value param ||| setBits name fields

/-- The word that is written for a stored one: bits that no parameter depends on are kept,
and the others say which of the fields are present. -/
def recomputed (params : List Param) (fields : List (Value × Param)) (name : String)
    (word : UInt32) : UInt32 :=
  word &&& ~~~usedBits params name ||| setBits name fields

/-- The words after one more field. -/
def next (params : List Param) (flags : FlagWords) (value : Value) (param : Param) :
    Except EncodeError FlagWords :=
  if param.type = .flags then
    (fun word => flags.push param.name (word &&& ~~~usedBits params param.name)) <$>
      stored param.name value
  else match param.flag with
    | some flag => .ok (if value.isPresentAs param.type then flags.set flag else flags)
    | none => .ok flags

theorem compute_cons (params : List Param) (flags : FlagWords) (value : Value) (param : Param)
    (fields : List (Value × Param)) :
    compute params flags ((value, param) :: fields) =
      next params flags value param >>= fun after => compute params after fields := by
  rw [compute, next]
  by_cases isWord : param.type = .flags
  · rw [if_pos isWord, if_pos isWord]
    cases stored param.name value <;> rfl
  · rw [if_neg isWord, if_neg isWord]
    cases param.flag with
    | none => rfl
    | some flag => by_cases present : value.isPresentAs param.type <;> simp only [present] <;> rfl

theorem compute_cons_eq_ok_iff {params : List Param} {flags words : FlagWords} {value : Value}
    {param : Param} {fields : List (Value × Param)} :
    compute params flags ((value, param) :: fields) = .ok words ↔
      ∃ after, next params flags value param = .ok after ∧
        compute params after fields = .ok words := by
  rw [compute_cons, Except.bind_eq_ok_iff]

/-- A word that is there gains the bit of the field. -/
theorem get?_next_of_some {params : List Param} {flags after : FlagWords} {value : Value}
    {param : Param} (computed : next params flags value param = .ok after) {name : String}
    {word : UInt32} (found : flags.get? name = some word) :
    after.get? name = some (word ||| contribution name value param) := by
  rw [next] at computed
  by_cases isWord : param.type = .flags
  · rw [if_pos isWord] at computed
    rw [contribution_of_word isWord, UInt32.or_zero]
    cases kept : stored param.name value with
    | error error =>
      rw [kept] at computed
      cases computed
    | ok stored =>
      rw [kept] at computed
      cases computed
      rw [get?_push, found, Option.some_or]
  · rw [if_neg isWord] at computed
    cases conditional : param.flag with
    | none =>
      rw [conditional] at computed
      cases computed
      rw [contribution_of_none conditional, UInt32.or_zero, found]
    | some flag =>
      rw [conditional] at computed
      cases computed
      rw [contribution_of_some isWord conditional]
      by_cases present : value.isPresentAs param.type
      · rw [if_pos present, get?_set, found]
        by_cases named : flag.name = name
        · rw [if_pos named.symm, if_pos ⟨named, present⟩, Option.map_some]
        · rw [if_neg (Ne.symm named), if_neg fun both => named both.1, UInt32.or_zero]
      · rw [if_neg present, if_neg fun both => present both.2, found, UInt32.or_zero]

/-- The field that gives a word leaves the words of other names alone, and no other field
gives one. -/
theorem get?_next_of_none {params : List Param} {flags after : FlagWords} {value : Value}
    {param : Param} (computed : next params flags value param = .ok after) {name : String}
    (missing : flags.get? name = none) :
    after.get? name =
      if param.type = .flags ∧ param.name = name then
        (stored name value).toOption.map (· &&& ~~~usedBits params name)
      else none := by
  rw [next] at computed
  by_cases isWord : param.type = .flags
  · rw [if_pos isWord] at computed
    cases kept : stored param.name value with
    | error error =>
      rw [kept] at computed
      cases computed
    | ok word =>
      rw [kept] at computed
      cases computed
      rw [get?_push, missing, Option.none_or]
      by_cases named : param.name = name
      · subst named
        rw [if_pos rfl, if_pos ⟨isWord, rfl⟩, kept]
        rfl
      · rw [if_neg named, if_neg fun both => named both.2]
  · rw [if_neg isWord] at computed
    rw [if_neg fun both => isWord both.1]
    cases conditional : param.flag with
    | none =>
      rw [conditional] at computed
      cases computed
      exact missing
    | some flag =>
      rw [conditional] at computed
      cases computed
      by_cases present : value.isPresentAs param.type
      · rw [if_pos present, get?_set, missing, Option.map_none, ite_self]
      · rw [if_neg present, missing]

/-- A word that is there gains the bits of all the fields that are still to come. -/
theorem get?_compute_of_some {params : List Param} {flags words : FlagWords}
    {fields : List (Value × Param)} (computed : compute params flags fields = .ok words)
    {name : String} {word : UInt32} (found : flags.get? name = some word) :
    words.get? name = some (word ||| setBits name fields) := by
  induction fields generalizing flags word with
  | nil =>
    cases computed
    rw [found, setBits, UInt32.or_zero]
  | cons field fields inductionHypothesis =>
    obtain ⟨value, param⟩ := field
    obtain ⟨after, first, rest⟩ := compute_cons_eq_ok_iff.1 computed
    rw [setBits, ← UInt32.or_assoc]
    exact inductionHypothesis rest (get?_next_of_some first found)

end FlagWords

/-- Words in order are in order from each parameter on, after those declared up to it. -/
theorem WordsInOrder.from_mem {declared : List String} {params : List Param}
    (inOrder : WordsInOrder declared params) {param : Param} (member : param ∈ params) :
    ∃ known rest, WordsInOrder known (param :: rest) ∧ declared ⊆ known ∧
      ∀ name ∈ known, name ∈ declared ∨ ∃ word ∈ params, word.type = .flags ∧ word.name = name := by
  induction params generalizing declared with
  | nil => cases member
  | cons head params inductionHypothesis =>
    rcases List.mem_cons.1 member with rfl | later
    · exact ⟨declared, params, inOrder, List.Subset.refl _, fun _ known => Or.inl known⟩
    rw [WordsInOrder] at inOrder
    by_cases isWord : head.type = .flags
    · rw [if_pos isWord] at inOrder
      obtain ⟨known, rest, fromHere, before, origin⟩ := inductionHypothesis inOrder.2.2 later
      refine ⟨known, rest, fromHere, fun name member =>
        before (List.mem_cons_of_mem _ member), fun name member => ?_⟩
      rcases origin name member with declaredBefore | ⟨word, wordMember, isWord', named⟩
      · rcases List.mem_cons.1 declaredBefore with rfl | declaredBefore
        · exact Or.inr ⟨head, List.mem_cons_self, isWord, rfl⟩
        · exact Or.inl declaredBefore
      · exact Or.inr ⟨word, List.mem_cons_of_mem _ wordMember, isWord', named⟩
    · rw [if_neg isWord] at inOrder
      obtain ⟨known, rest, fromHere, before, origin⟩ := inductionHypothesis inOrder.2 later
      refine ⟨known, rest, fromHere, before, fun name member => ?_⟩
      rcases origin name member with declaredBefore | ⟨word, wordMember, isWord', named⟩
      · exact Or.inl declaredBefore
      · exact Or.inr ⟨word, List.mem_cons_of_mem _ wordMember, isWord', named⟩

theorem WordsInOrder.name_not_mem {declared : List String} {params : List Param}
    (inOrder : WordsInOrder declared params) {param : Param} (member : param ∈ params)
    (isWord : param.type = .flags) : param.name ∉ declared := by
  obtain ⟨known, rest, fromHere, before, -⟩ := inOrder.from_mem member
  rw [WordsInOrder, if_pos isWord] at fromHere
  exact fun declaredBefore => fromHere.2.1 (before declaredBefore)

/-- The word that a condition names is one of those declared before or of the parameters. -/
theorem WordsInOrder.declared_or_mem {declared : List String} {params : List Param}
    (inOrder : WordsInOrder declared params) {param : Param} (member : param ∈ params)
    {flag : Flag} (conditional : param.flag = some flag) :
    flag.name ∈ declared ∨ ∃ word ∈ params, word.type = .flags ∧ word.name = flag.name := by
  obtain ⟨known, rest, fromHere, -, origin⟩ := inOrder.from_mem member
  rw [WordsInOrder] at fromHere
  exact origin flag.name (fromHere.1 flag conditional)

theorem FlagsInOrder.unconditional {declared : List String} {params : List Param}
    (inOrder : FlagsInOrder declared params) {param : Param} (member : param ∈ params)
    (isWord : param.type = .flags) : param.flag = none := by
  induction params generalizing declared with
  | nil => cases member
  | cons head params inductionHypothesis =>
    rw [FlagsInOrder] at inOrder
    rcases List.mem_cons.1 member with rfl | later
    · rw [if_pos isWord] at inOrder
      exact inOrder.1
    · split at inOrder
      · exact inductionHypothesis inOrder.2.2 later
      · exact inductionHypothesis inOrder.2 later

theorem FlagsInOrder.isField {declared : List String} {params : List Param}
    (inOrder : FlagsInOrder declared params) {param : Param} (member : param ∈ params)
    {flag : Flag} (conditional : param.flag = some flag) : param.type ≠ .flags := by
  intro isWord
  rw [inOrder.unconditional member isWord] at conditional
  cases conditional

namespace FlagWords

/-- A field whose condition names another word, or none, sets nothing in a word. -/
theorem contribution_of_declared {name : String} {value : Value} {param : Param}
    {declared : List String} (earlier : ∀ flag ∈ param.flag, flag.name ∈ declared)
    (later : name ∉ declared) : contribution name value param = 0 := by
  by_cases isWord : param.type = .flags
  · exact contribution_of_word isWord
  cases conditional : param.flag with
  | none => exact contribution_of_none conditional
  | some flag =>
    rw [contribution_of_some isWord conditional, if_neg]
    rintro ⟨rfl, -⟩
    exact later (earlier flag (by rw [conditional]; rfl))

/-- Of every flags field the words computed hold the word that it stores, recomputed. -/
theorem get?_compute {all : List Param} {declared : List String} {flags words : FlagWords}
    {fields : List (Value × Param)} (inOrder : WordsInOrder declared (fields.map Prod.snd))
    (undeclared : ∀ name ∉ declared, flags.get? name = none)
    (computed : compute all flags fields = .ok words) {value : Value} {param : Param}
    (member : (value, param) ∈ fields) (isWord : param.type = .flags) :
    ∃ word, stored param.name value = .ok word ∧
      words.get? param.name = some (recomputed all fields param.name word) := by
  induction fields generalizing declared flags with
  | nil => cases member
  | cons field fields inductionHypothesis =>
    obtain ⟨head, headParam⟩ := field
    obtain ⟨after, first, rest⟩ := compute_cons_eq_ok_iff.1 computed
    have fromHere := inOrder
    rw [List.map_cons, WordsInOrder] at inOrder
    simp only [recomputed, setBits]
    rcases List.mem_cons.1 member with same | later
    · obtain ⟨rfl, rfl⟩ := Prod.mk.inj same
      have given := get?_next_of_none first
        (undeclared param.name (fromHere.name_not_mem List.mem_cons_self isWord))
      rw [if_pos ⟨isWord, rfl⟩] at given
      rw [contribution_of_word isWord, UInt32.zero_or]
      cases kept : stored param.name value with
      | error error =>
        rw [next, if_pos isWord, kept] at first
        cases first
      | ok word =>
        rw [kept] at given
        exact ⟨word, rfl, get?_compute_of_some rest given⟩
    · have new : param.name ∉ declared :=
        fromHere.name_not_mem (List.mem_map_of_mem member) isWord
      rw [contribution_of_declared inOrder.1 new, UInt32.zero_or]
      by_cases headIsWord : headParam.type = .flags
      · rw [if_pos headIsWord] at inOrder
        refine inductionHypothesis inOrder.2.2 (fun name other => ?_) rest later
        rw [List.mem_cons, not_or] at other
        rw [get?_next_of_none first (undeclared name other.2),
          if_neg fun both => other.1 both.2.symm]
      · rw [if_neg headIsWord] at inOrder
        refine inductionHypothesis inOrder.2 (fun name other => ?_) rest later
        rw [get?_next_of_none first (undeclared name other), if_neg fun both => headIsWord both.1]

/-- The words pass the check just if they tell which conditional fields are present. -/
theorem check_eq_ok_iff {object : String} {flags : FlagWords} {fields : List (Value × Param)} :
    check object flags fields = .ok () ↔
      ∀ value param flag, (value, param) ∈ fields → param.flag = some flag →
        param.type ≠ .flags → flags.has flag = value.isPresentAs param.type := by
  induction fields with
  | nil => exact ⟨fun _ _ _ _ member => (nomatch member), fun _ => rfl⟩
  | cons field fields inductionHypothesis =>
    obtain ⟨head, headParam⟩ := field
    rw [check]
    refine ⟨?_, ?_⟩
    · intro passed value param flag member conditional isField
      rcases List.mem_cons.1 member with same | later
      · obtain ⟨rfl, rfl⟩ := Prod.mk.inj same
        rw [conditional] at passed
        refine Decidable.byContradiction fun differs => ?_
        simp only [if_pos (And.intro isField differs)] at passed
        cases passed
      · refine inductionHypothesis.1 ?_ value param flag later conditional isField
        split at passed
        · split at passed
          · cases passed
          · exact passed
        · exact passed
    · intro agrees
      have rest := inductionHypothesis.2 fun value param flag later =>
        agrees value param flag (List.mem_cons_of_mem _ later)
      split
      · next flag conditional =>
        rw [if_neg fun both => both.2 (agrees head headParam flag List.mem_cons_self conditional
          both.1), rest]
      · exact rest

/-- What fails the check is a conditional field that its flag tells the wrong thing of. -/
theorem exists_mismatch_of_check {object : String} {flags : FlagWords}
    {fields : List (Value × Param)} {error : EncodeError}
    (failed : check object flags fields = .error error) :
    ∃ value param flag, (value, param) ∈ fields ∧ param.flag = some flag ∧
      flags.has flag ≠ value.isPresentAs param.type ∧
      error = .flagMismatch object param.name (flags.has flag) flag := by
  induction fields with
  | nil => cases failed
  | cons field fields inductionHypothesis =>
    obtain ⟨head, headParam⟩ := field
    have inRest (failed : check object flags fields = .error error) :
        ∃ value param flag, (value, param) ∈ (head, headParam) :: fields ∧
          param.flag = some flag ∧ flags.has flag ≠ value.isPresentAs param.type ∧
          error = .flagMismatch object param.name (flags.has flag) flag := by
      obtain ⟨value, param, flag, later, mismatch⟩ := inductionHypothesis failed
      exact ⟨value, param, flag, List.mem_cons_of_mem _ later, mismatch⟩
    rw [check] at failed
    split at failed
    · next flag conditional =>
      split at failed
      · next differs =>
        cases failed
        exact ⟨head, headParam, flag, List.mem_cons_self, conditional, differs.2, rfl⟩
      · exact inRest failed
    · exact inRest failed

/-! ### The words of a reader -/

/-- A reader that has passed the words of the declared names holds just these. -/
def ReadSoFar (declared : List String) (seen words : FlagWords) : Prop :=
  ∀ name, seen.get? name = if name ∈ declared then words.get? name else none

theorem readSoFar_empty (words : FlagWords) : ReadSoFar [] empty words :=
  fun _ => rfl

theorem ReadSoFar.has_eq {declared : List String} {seen words : FlagWords}
    (readSoFar : ReadSoFar declared seen words) {flag : Flag} (known : flag.name ∈ declared) :
    seen.has flag = words.has flag :=
  has_congr (by rw [readSoFar, if_pos known])

theorem ReadSoFar.push {declared : List String} {seen words : FlagWords}
    (readSoFar : ReadSoFar declared seen words) {name : String} {word : UInt32}
    (new : name ∉ declared) (given : words.get? name = some word) :
    ReadSoFar (name :: declared) (seen.push name word) words := by
  intro other
  rw [get?_push, readSoFar]
  by_cases same : name = other
  · subst same
    rw [if_neg new, if_pos rfl, Option.none_or, if_pos List.mem_cons_self, given]
  · rw [if_neg same, Option.or_none]
    by_cases known : other ∈ declared
    · rw [if_pos known, if_pos (List.mem_cons_of_mem _ known)]
    · rw [if_neg known, if_neg fun member => (List.mem_cons.1 member).elim (Ne.symm same) known]

/-- The reader finds that a field is there just where the writer has put it. -/
theorem ReadSoFar.all_has_eq {declared : List String} {seen words : FlagWords} {value : Value}
    {param : Param} (readSoFar : ReadSoFar declared seen words)
    (earlier : ∀ flag ∈ param.flag, flag.name ∈ declared)
    (present : ∀ flag, param.flag = some flag → words.has flag = value.isPresentAs param.type) :
    (param.flag.all fun flag => seen.has flag) =
      (param.flag.isNone || value.isPresentAs param.type) := by
  cases conditional : param.flag with
  | none => rfl
  | some flag =>
    show seen.has flag = value.isPresentAs param.type
    rw [readSoFar.has_eq (earlier flag conditional), present flag conditional]

theorem undeclared_push {declared : List String} {seen : FlagWords} {name : String}
    (undeclared : ∀ other ∉ declared, seen.get? other = none) (word : UInt32) :
    ∀ other ∉ name :: declared, (seen.push name word).get? other = none := by
  intro other unknown
  rw [List.mem_cons, not_or] at unknown
  rw [get?_push, undeclared other unknown.2, if_neg (Ne.symm unknown.1)]
  rfl

/-- The words after a further one, seen from before it. -/
theorem ReadSoFar.of_push {declared : List String} {seen words : FlagWords} {name : String}
    {word : UInt32} (new : name ∉ declared)
    (undeclared : ∀ other ∉ declared, seen.get? other = none)
    (readSoFar : ReadSoFar (name :: declared) (seen.push name word) words) :
    ReadSoFar declared seen words ∧ words.get? name = some word := by
  refine ⟨?_, ?_⟩
  · intro other
    by_cases known : other ∈ declared
    · have ne : name ≠ other := fun same => new (same ▸ known)
      have after := readSoFar other
      rw [get?_push, if_neg ne, Option.or_none, if_pos (List.mem_cons_of_mem _ known)] at after
      rw [after, if_pos known]
    · rw [undeclared other known, if_neg known]
  · have after := readSoFar name
    rw [get?_push, undeclared name new, Option.none_or, if_pos rfl,
      if_pos List.mem_cons_self] at after
    exact after.symm

/-- The conditions of the parameters of type `#` are all met. -/
def Calls (words : FlagWords) (params : List Param) : Prop :=
  ∀ param ∈ params, param.type = .flags → ∀ flag ∈ param.flag, words.has flag = true

theorem calls_cons_iff {words : FlagWords} {param : Param} {params : List Param} :
    words.Calls (param :: params) ↔
      (param.type = .flags → ∀ flag ∈ param.flag, words.has flag = true) ∧ words.Calls params :=
  List.forall_mem_cons

/-- Where no word is conditional, none has to be called. -/
theorem calls_of_flagsInOrder {declared : List String} {params : List Param}
    (inOrder : FlagsInOrder declared params) (words : FlagWords) : words.Calls params := by
  intro param member isWord flag conditional
  rw [inOrder.unconditional member isWord] at conditional
  cases conditional

/-! ### Words that were read -/

theorem getLsbD_mask (flag : Flag) (index : Nat) :
    flag.mask.toBitVec.getLsbD index = decide (flag.index < 32 ∧ flag.index.toNat = index) := by
  show flag.mask.toNat.testBit index = _
  rw [Flag.mask]
  by_cases inside : flag.index < 32
  · have bound : flag.index.toNat < 32 := inside
    rw [if_pos inside, UInt32.toNat_shiftLeft, Nat.mod_eq_of_lt bound, Nat.testBit_mod_two_pow,
      UInt32.toNat_one, Nat.one_shiftLeft, Nat.testBit_two_pow, ← Bool.decide_and]
    exact decide_eq_decide.2 ⟨fun both => ⟨inside, both.2⟩, fun both => ⟨by omega, both.2⟩⟩
  · rw [if_neg inside, UInt32.toNat_zero, Nat.zero_testBit]
    exact (decide_eq_false fun both => inside both.1).symm

/-- A mask meets a word if the word has the mask's bit. -/
theorem and_mask_ne_zero_iff {word : UInt32} {flag : Flag} :
    word &&& flag.mask ≠ 0 ↔
      flag.index < 32 ∧ word.toBitVec.getLsbD flag.index.toNat = true := by
  rw [ne_eq, ← UInt32.toBitVec_inj, UInt32.toBitVec_and, UInt32.toBitVec_zero,
    BitVec.zero_iff_eq_false]
  refine ⟨?_, ?_⟩
  · intro meets
    refine Decidable.byContradiction fun missing => meets fun index => ?_
    rw [BitVec.getLsbD_and, getLsbD_mask]
    by_cases here : flag.index < 32 ∧ flag.index.toNat = index
    · obtain ⟨inside, rfl⟩ := here
      rw [Bool.eq_false_iff.2 fun set => missing ⟨inside, set⟩, Bool.false_and]
    · rw [decide_eq_false here, Bool.and_false]
  · rintro ⟨inside, set⟩ none
    have bit := none flag.index.toNat
    rw [BitVec.getLsbD_and, getLsbD_mask, set, decide_eq_true ⟨inside, rfl⟩] at bit
    cases bit

/-- A flag is set if the word of its name has its bit, which no word has past the 31st. -/
theorem has_eq_true_iff {flags : FlagWords} {flag : Flag} :
    flags.has flag = true ↔
      ∃ word, flags.get? flag.name = some word ∧ flag.index < 32 ∧
        word.toBitVec.getLsbD flag.index.toNat = true := by
  rw [has]
  cases flags.get? flag.name with
  | none => simp
  | some word =>
    simp only [bne_iff_ne, and_mask_ne_zero_iff, Option.some.injEq, exists_eq_left']

/-- The words tell of all the fields what they hold: the word that a flags field holds,
and whether a conditional field is present. -/
structure Describes (words : FlagWords) (fields : List (Value × Param)) : Prop where
  held : ∀ {value param}, (value, param) ∈ fields → param.type = .flags →
    ∃ word : UInt32, value = .int word.toInt32 ∧ words.get? param.name = some word
  present : ∀ {value param flag}, (value, param) ∈ fields → param.flag = some flag →
    param.type ≠ .flags → words.has flag = value.isPresentAs param.type

theorem getLsbD_contribution {name : String} {value : Value} {param : Param} {index : Nat} :
    (contribution name value param).toBitVec.getLsbD index = true ↔
      ∃ flag, param.flag = some flag ∧ param.type ≠ .flags ∧ value.isPresentAs param.type ∧
        flag.name = name ∧ flag.index < 32 ∧ flag.index.toNat = index := by
  rw [contribution]
  cases param.flag with
  | none => simp
  | some flag =>
    simp only [Option.some.injEq, exists_eq_left']
    split
    · next chosen => simp [getLsbD_mask, chosen]
    · next other =>
      rw [UInt32.toBitVec_zero, BitVec.getLsbD_zero]
      refine ⟨nofun, fun all => absurd ?_ other⟩
      exact ⟨all.1, all.2.2.1, all.2.1⟩

theorem getLsbD_setBits {name : String} {fields : List (Value × Param)} {index : Nat} :
    (setBits name fields).toBitVec.getLsbD index = true ↔
      ∃ value param flag, (value, param) ∈ fields ∧ param.flag = some flag ∧
        param.type ≠ .flags ∧ value.isPresentAs param.type ∧
        flag.name = name ∧ flag.index < 32 ∧ flag.index.toNat = index := by
  induction fields with
  | nil => simp [setBits]
  | cons field fields inductionHypothesis =>
    obtain ⟨head, headParam⟩ := field
    rw [setBits, UInt32.toBitVec_or, BitVec.getLsbD_or, Bool.or_eq_true, getLsbD_contribution,
      inductionHypothesis]
    refine ⟨?_, ?_⟩
    · rintro (⟨flag, sets⟩ | ⟨value, param, flag, later, sets⟩)
      · exact ⟨head, headParam, flag, List.mem_cons_self, sets⟩
      · exact ⟨value, param, flag, List.mem_cons_of_mem _ later, sets⟩
    · rintro ⟨value, param, flag, member, sets⟩
      rcases List.mem_cons.1 member with same | later
      · obtain ⟨rfl, rfl⟩ := Prod.mk.inj same
        exact Or.inl ⟨flag, sets⟩
      · exact Or.inr ⟨value, param, flag, later, sets⟩

theorem getLsbD_usedBits {params : List Param} {name : String} {index : Nat} :
    (usedBits params name).toBitVec.getLsbD index = true ↔
      ∃ param ∈ params, ∃ flag, param.flag = some flag ∧
        flag.name = name ∧ flag.index < 32 ∧ flag.index.toNat = index := by
  have folded (flags : List Flag) (bits : UInt32) :
      (flags.foldl (fun bits flag => if flag.name = name then bits ||| flag.mask else bits)
        bits).toBitVec.getLsbD index = true ↔
        bits.toBitVec.getLsbD index = true ∨
          ∃ flag ∈ flags, flag.name = name ∧ flag.index < 32 ∧ flag.index.toNat = index := by
    induction flags generalizing bits with
    | nil => simp
    | cons flag flags inductionHypothesis =>
      rw [List.foldl_cons, inductionHypothesis]
      by_cases named : flag.name = name
      · simp [named, getLsbD_mask, or_assoc]
      · simp [named]
  rw [usedBits, folded]
  simp only [UInt32.toBitVec_zero, BitVec.getLsbD_zero, Bool.false_eq_true, false_or,
    List.mem_filterMap]
  refine ⟨?_, ?_⟩
  · rintro ⟨flag, ⟨param, member, conditional⟩, reads⟩
    exact ⟨param, member, flag, conditional, reads⟩
  · rintro ⟨param, member, flag, conditional, reads⟩
    exact ⟨flag, ⟨param, member, conditional⟩, reads⟩

/-- A word that describes the fields is written as it was read. -/
theorem Describes.recomputed_eq {words : FlagWords} {fields : List (Value × Param)}
    (describes : words.Describes fields)
    (unconditional : ∀ field ∈ fields, field.2.type = .flags → field.2.flag = none)
    {name : String} {word : UInt32} (given : words.get? name = some word) :
    recomputed (fields.map Prod.snd) fields name word = word := by
  rw [recomputed, ← UInt32.toBitVec_inj, UInt32.toBitVec_or, UInt32.toBitVec_and,
    UInt32.toBitVec_not]
  refine BitVec.eq_of_getLsbD_eq fun index bound => ?_
  rw [BitVec.getLsbD_or, BitVec.getLsbD_and, BitVec.getLsbD_not, decide_eq_true bound,
    Bool.true_and]
  -- A bit that is read says whether the field that reads it is present.
  have present_iff {value : Value} {param : Param} {flag : Flag}
      (member : (value, param) ∈ fields) (conditional : param.flag = some flag)
      (isField : param.type ≠ .flags) (named : flag.name = name) :
      value.isPresentAs param.type = true ↔
        flag.index < 32 ∧ word.toBitVec.getLsbD flag.index.toNat = true := by
    rw [← describes.present member conditional isField, has_eq_true_iff, named, given]
    simp only [Option.some.injEq, exists_eq_left']
  have set_imp : (setBits name fields).toBitVec.getLsbD index = true →
      word.toBitVec.getLsbD index = true := by
    intro set
    obtain ⟨value, param, flag, member, conditional, isField, present, named, -, rfl⟩ :=
      getLsbD_setBits.1 set
    exact ((present_iff member conditional isField named).1 present).2
  have used_imp : (usedBits (fields.map Prod.snd) name).toBitVec.getLsbD index = true →
      word.toBitVec.getLsbD index = true →
      (setBits name fields).toBitVec.getLsbD index = true := by
    intro used bit
    obtain ⟨_, member, flag, conditional, named, inside, rfl⟩ := getLsbD_usedBits.1 used
    obtain ⟨⟨value, param⟩, fieldMember, rfl⟩ := List.mem_map.1 member
    have isField : param.type ≠ .flags := fun isWord => by
      rw [unconditional _ fieldMember isWord] at conditional
      cases conditional
    exact getLsbD_setBits.2 ⟨value, param, flag, fieldMember, conditional, isField,
      (present_iff fieldMember conditional isField named).2 ⟨inside, bit⟩, named, inside, rfl⟩
  revert set_imp used_imp
  cases (setBits name fields).toBitVec.getLsbD index <;>
    cases (usedBits (fields.map Prod.snd) name).toBitVec.getLsbD index <;>
    cases word.toBitVec.getLsbD index <;> simp

theorem exists_compute (all : List Param) (flags : FlagWords) {fields : List (Value × Param)}
    (stores : ∀ field ∈ fields, field.2.type = .flags →
      ∃ word, stored field.2.name field.1 = .ok word) :
    ∃ words, compute all flags fields = .ok words := by
  induction fields generalizing flags with
  | nil => exact ⟨flags, rfl⟩
  | cons field fields inductionHypothesis =>
    obtain ⟨value, param⟩ := field
    have first : ∃ after, next all flags value param = .ok after := by
      rw [next]
      by_cases isWord : param.type = .flags
      · obtain ⟨word, stored⟩ := stores (value, param) List.mem_cons_self isWord
        rw [if_pos isWord, stored]
        exact ⟨_, rfl⟩
      · rw [if_neg isWord]
        cases param.flag with
        | none => exact ⟨_, rfl⟩
        | some flag => exact ⟨_, rfl⟩
    obtain ⟨after, computed⟩ := first
    obtain ⟨words, rest⟩ := inductionHypothesis after fun field later =>
      stores field (List.mem_cons_of_mem _ later)
    exact ⟨words, compute_cons_eq_ok_iff.2 ⟨after, computed, rest⟩⟩

/-- From the fields that some words describe, the same words are computed, and they pass
the check. -/
theorem Describes.exists_compute {words : FlagWords} {fields : List (Value × Param)}
    (describes : words.Describes fields) (inOrder : FlagsInOrder [] (fields.map Prod.snd))
    (object : String) :
    ∃ computed, compute (fields.map Prod.snd) empty fields = .ok computed ∧
      check object computed fields = .ok () ∧
      ∀ param ∈ fields.map Prod.snd, param.type = .flags →
        computed.get? param.name = words.get? param.name := by
  have stores : ∀ field ∈ fields, field.2.type = .flags →
      ∃ word, stored field.2.name field.1 = .ok word := by
    intro field member isWord
    obtain ⟨word, holds, -⟩ := describes.held member isWord
    rw [holds]
    exact ⟨_, rfl⟩
  obtain ⟨computed, success⟩ := FlagWords.exists_compute (fields.map Prod.snd) empty stores
  have same : ∀ param ∈ fields.map Prod.snd, param.type = .flags →
      computed.get? param.name = words.get? param.name := by
    intro param member isWord
    obtain ⟨⟨value, _⟩, fieldMember, rfl⟩ := List.mem_map.1 member
    obtain ⟨word, holds, given⟩ := describes.held fieldMember isWord
    obtain ⟨kept, stores, computes⟩ := get?_compute inOrder.wordsInOrder (fun _ _ => rfl) success
      fieldMember isWord
    rw [holds] at stores
    cases stores
    rw [computes, given, UInt32.toUInt32_toInt32,
      describes.recomputed_eq (fun field member => inOrder.unconditional
        (List.mem_map_of_mem member)) given]
  refine ⟨computed, success, check_eq_ok_iff.2 ?_, same⟩
  intro value param flag member conditional isField
  rcases inOrder.wordsInOrder.declared_or_mem (List.mem_map_of_mem member) conditional with
    known | ⟨word, wordMember, isWord, named⟩
  · cases known
  · rw [← describes.present member conditional isField]
    exact has_congr (named ▸ same word wordMember isWord)

/-- Among words that were computed, a flag is set just if some field that hangs on it is
present. What hangs on it may be a word, but no word sets it. -/
theorem has_compute_iff_field {words : FlagWords} {params : List Param}
    {fields : List (Value × Param)} (pairs : fields.map Prod.snd = params)
    (inOrder : WordsInOrder [] params) (computed : compute params empty fields = .ok words)
    {param : Param} (member : param ∈ params) {flag : Flag}
    (conditional : param.flag = some flag) :
    words.has flag = true ↔
      flag.index < 32 ∧
        ∃ value param, (value, param) ∈ fields ∧ param.flag = some flag ∧
          param.type ≠ .flags ∧ value.isPresentAs param.type = true := by
  subst pairs
  have word_given : ∃ word, words.get? flag.name =
      some (recomputed (fields.map Prod.snd) fields flag.name word) := by
    rcases inOrder.declared_or_mem member conditional with known | ⟨_, wordMember, isWord, named⟩
    · cases known
    · obtain ⟨⟨value, wordParam⟩, fieldMember, rfl⟩ := List.mem_map.1 wordMember
      obtain ⟨word, -, given⟩ :=
        get?_compute inOrder (fun _ _ => rfl) computed fieldMember isWord
      exact ⟨word, named ▸ given⟩
  obtain ⟨word, given⟩ := word_given
  rw [has_eq_true_iff, given]
  simp only [Option.some.injEq, exists_eq_left']
  refine and_congr_right fun inside => ?_
  -- The bit is one that conditions read, so nothing of it is kept.
  have used : (usedBits (fields.map Prod.snd) flag.name).toBitVec.getLsbD flag.index.toNat =
      true := getLsbD_usedBits.2 ⟨param, member, flag, conditional, rfl, inside, rfl⟩
  rw [recomputed, UInt32.toBitVec_or, UInt32.toBitVec_and, UInt32.toBitVec_not,
    BitVec.getLsbD_or, BitVec.getLsbD_and, BitVec.getLsbD_not, used, Bool.not_true,
    Bool.and_false, Bool.and_false, Bool.false_or, getLsbD_setBits]
  refine ⟨?_, ?_⟩
  · rintro ⟨value, other, same, otherMember, otherFlag, isField, present, named, -, placed⟩
    have isSame : same = flag := by
      obtain ⟨name, index⟩ := same
      obtain rfl : name = flag.name := named
      obtain rfl : index = flag.index := UInt32.toNat_inj.1 placed
      rfl
    exact ⟨value, other, otherMember, isSame ▸ otherFlag, isField, present⟩
  · rintro ⟨value, other, otherMember, otherFlag, isField, present⟩
    exact ⟨value, other, flag, otherMember, otherFlag, isField, present, rfl, inside, rfl⟩

theorem has_compute_iff {words : FlagWords} {params : List Param} {fields : List (Value × Param)}
    (pairs : fields.map Prod.snd = params) (inOrder : FlagsInOrder [] params)
    (computed : compute params empty fields = .ok words) {param : Param} (member : param ∈ params)
    {flag : Flag} (conditional : param.flag = some flag) :
    words.has flag = true ↔
      flag.index < 32 ∧
        ∃ value param, (value, param) ∈ fields ∧ param.flag = some flag ∧
          value.isPresentAs param.type = true := by
  rw [has_compute_iff_field pairs inOrder.wordsInOrder computed member conditional]
  refine and_congr_right fun _ => exists_congr fun value => exists_congr fun other =>
    and_congr_right fun otherMember => and_congr_right fun otherFlag => ?_
  have isParam : other ∈ params := pairs ▸ List.mem_map_of_mem otherMember
  exact and_iff_right (inOrder.isField isParam otherFlag)

end FlagWords

end TypeLanguage
