/-
This file proves that the display of a value has the lines of its tree and no others. A value
without parts takes one line; any other takes a line for its opening bracket, the lines of its
parts, and a line for the closing one. Vectors and objects differ in what stands in front of
a part only, which is its label here: nothing, or the name of the field. So both are a list
of labelled parts, and each fact needs one case for values without parts and one for the rest.

The display splits at its line feeds into just these lines since no line feed comes from
anywhere else: not from the contents of a value, which keep to a line, and not from its
names, which have no blank. For the same reason each line goes on, behind the spaces of its
level, with a character that is not a space. Where the lines of a part stand follows from the
lines of the parts before it, by induction on the way from the whole to the part.
-/

import TypeLanguage.Proofs.LeafText

namespace TypeLanguage.Value

open Text

/-! ### Parts -/

/-- The elements of a vector or the fields of an object, in order, each with its label, which
is the name of a field with a colon and a space. -/
def parts : Value → List (List Char × Value)
  | vector items => items.map fun item => ([], item)
  | object _ _ fields => fields.map fun field => (field.1.toList ++ [':', ' '], field.2)
  | _ => []

/-- What a value starts with: all of its display if it has no parts, and otherwise what
stands in front of them. -/
def opening : Value → List Char
  | vector [] => ['[', ']']
  | vector _ => ['[']
  | object id name [] => (objectHead id name).toList ++ ['\x7d']
  | object id name _ => (objectHead id name).toList
  | value => value.leafText.toList

/-- The bracket behind the parts of a value. -/
def closing : Value → Char
  | vector _ => ']'
  | _ => '\x7d'

/-- What holds of a value if it holds of its parts holds of every value. -/
theorem parts_induction {motive : Value → Prop}
    (step : ∀ value : Value, (∀ part ∈ value.parts, motive part.2) → motive value)
    (value : Value) : motive value := by
  induction value using Value.induction with
  | leaf value isLeaf =>
    refine step value fun part member => ?_
    cases value with
    | vector | object => cases isLeaf
    | _ => cases member
  | vector items inductionHypothesis =>
    refine step _ fun part member => ?_
    obtain ⟨item, isItem, rfl⟩ := List.mem_map.1 member
    exact inductionHypothesis item isItem
  | object id name fields inductionHypothesis =>
    refine step _ fun part member => ?_
    obtain ⟨field, isField, rfl⟩ := List.mem_map.1 member
    exact inductionHypothesis field isField

mutual

/-- The number of lines that a value takes up: one if it has no parts, and otherwise two more
than its parts take up together. -/
def lineCount : Value → Nat
  | vector (item :: items) => 2 + lineCountOfItems (item :: items)
  | object _ _ (field :: fields) => 2 + lineCountOfFields (field :: fields)
  | _ => 1

/-- The number of lines that values take up together. -/
def lineCountOfItems : List Value → Nat
  | [] => 0
  | item :: items => item.lineCount + lineCountOfItems items

/-- The number of lines that fields take up together. -/
def lineCountOfFields : List (String × Value) → Nat
  | [] => 0
  | (_, value) :: fields => value.lineCount + lineCountOfFields fields

end

/-- The number of lines that parts take up together. -/
def lineCountOfParts (parts : List (List Char × Value)) : Nat :=
  (parts.map fun part => part.2.lineCount).sum

theorem lineCountOfItems_eq (items : List Value) :
    lineCountOfItems items = lineCountOfParts (vector items).parts := by
  induction items with
  | nil => rfl
  | cons item items inductionHypothesis =>
    rw [lineCountOfItems, inductionHypothesis]
    rfl

theorem lineCountOfFields_eq (id : UInt32) (name : String) (fields : List (String × Value)) :
    lineCountOfFields fields = lineCountOfParts (object id name fields).parts := by
  induction fields with
  | nil => rfl
  | cons field fields inductionHypothesis =>
    rw [lineCountOfFields, inductionHypothesis]
    rfl

theorem lineCount_of_parts_eq_nil {value : Value} (nothing : value.parts = []) :
    value.lineCount = 1 := by
  cases value with
  | vector items =>
    obtain rfl := List.map_eq_nil_iff.1 nothing
    rfl
  | object id name fields =>
    obtain rfl := List.map_eq_nil_iff.1 nothing
    rfl
  | _ => rfl

theorem lineCount_of_parts_ne_nil {value : Value} (some : value.parts ≠ []) :
    value.lineCount = 2 + lineCountOfParts value.parts := by
  cases value with
  | vector items =>
    cases items with
    | nil => exact absurd rfl some
    | cons item items => rw [lineCount, lineCountOfItems_eq]
  | object id name fields =>
    cases fields with
    | nil => exact absurd rfl some
    | cons field fields => rw [lineCount, lineCountOfFields_eq id name]
  | _ => exact absurd rfl some

/-! ### Where parts stand -/

/-- In the display of a whole, a part at some level stands behind a label, and its first line
is the one with this number. The parts of a value stand one level below it. The first comes
right behind the line that the value starts with, and each one right behind the one before. -/
inductive StandsAt (whole : Value) : Value → (label : List Char) → (depth line : Nat) → Prop
  | whole : StandsAt whole whole [] 0 0
  | part {container part : Value} {label partLabel : List Char} {depth line : Nat}
    {before after : List (List Char × Value)} (stands : StandsAt whole container label depth line)
    (split : container.parts = before ++ (partLabel, part) :: after) :
    StandsAt whole part partLabel (depth + 1) (line + 1 + lineCountOfParts before)

/-! ### Names without blanks -/

/-- No blank is in the names of the objects in a value, nor in the names of their fields. -/
inductive HasSolidNames : Value → Prop
  | leaf {value : Value} (isLeaf : value.isLeaf) : HasSolidNames value
  | vector {items : List Value} (each : ∀ item ∈ items, HasSolidNames item) :
    HasSolidNames (.vector items)
  | object {id : UInt32} {name : String} {fields : List (String × Value)}
    (ofName : NoneBlank name.toList) (ofFields : ∀ field ∈ fields, NoneBlank field.1.toList)
    (each : ∀ field ∈ fields, HasSolidNames field.2) :
    HasSolidNames (.object id name fields)

/-- A label is empty, or keeps to a line. -/
def IsLabel (label : List Char) : Prop :=
  label = [] ∨ IsLine label

theorem IsLabel.not_newline_mem {label : List Char} (isLabel : IsLabel label) : '\n' ∉ label := by
  rcases isLabel with rfl | isLine
  · exact List.not_mem_nil
  · exact isLine.noBreak

theorem IsLabel.isLine_append {label text : List Char} (isLabel : IsLabel label)
    (isLine : IsLine text) : IsLine (label ++ text) := by
  rcases isLabel with rfl | ofLabel
  · exact isLine
  · exact ofLabel.append isLine.noBreak

theorem HasSolidNames.part {value part : Value} {label : List Char} (solid : value.HasSolidNames)
    (member : (label, part) ∈ value.parts) : IsLabel label ∧ part.HasSolidNames := by
  cases solid with
  | leaf isLeaf =>
    cases value with
    | vector | object => cases isLeaf
    | _ => cases member
  | vector each =>
    obtain ⟨item, isItem, same⟩ := List.mem_map.1 member
    cases same
    exact ⟨Or.inl rfl, each part isItem⟩
  | object _ ofFields each =>
    obtain ⟨field, isField, same⟩ := List.mem_map.1 member
    cases same
    have named : IsWord (field.1.toList ++ [':']) :=
      IsWord.append_left ⟨nofun, by decide⟩ (ofFields field isField)
    have isLine := named.isLine.append (show '\n' ∉ [' '] by decide)
    rw [List.append_assoc] at isLine
    exact ⟨Or.inr isLine, each field isField⟩

theorem isLine_objectHead {name : String} (ofName : NoneBlank name.toList) (id : UInt32) :
    IsLine (objectHead id name).toList := by
  have digits : NoneBlank (Hex.word id).toList := fun character member => by
    rw [Hex.word, String.toList_ofList] at member
    exact isBlank_of_isAlphanum (Hex.isAlphanum_of_mem_fixedDigits member)
  have mark : IsWord "#".toList := ⟨by decide, by decide⟩
  rw [objectHead, String.toList_append, String.toList_append, String.toList_append]
  exact (((mark.append_left ofName).append digits).isLine).append (by decide)

/-- A value starts with a line. -/
theorem HasSolidNames.isLine_opening {value : Value} (solid : value.HasSolidNames) :
    IsLine value.opening := by
  cases solid with
  | leaf isLeaf =>
    cases value with
    | vector | object => cases isLeaf
    | _ => exact isLine_leafText isLeaf
  | @vector items _ =>
    cases items with
    | nil => exact IsWord.isLine (show IsWord ['[', ']'] from ⟨nofun, by decide⟩)
    | cons => exact IsWord.isLine (show IsWord ['['] from ⟨nofun, by decide⟩)
  | @object id name fields ofName _ _ =>
    cases fields with
    | nil => exact (isLine_objectHead ofName id).append (by decide)
    | cons => exact isLine_objectHead ofName id

/-! ### The text of a value -/

/-- The spaces in front of a line at a level. -/
def spaces (depth : Nat) : List Char :=
  List.replicate (4 * depth) ' '

/-- The text of a value that stands at a level, without the spaces in front. -/
def textAt (depth : Nat) (value : Value) : List Char :=
  (displayOnto "" depth value).toList

/-- The text of parts at a level, a line feed behind each. -/
def partsText (depth : Nat) (parts : List (List Char × Value)) : List Char :=
  parts.flatMap fun part => spaces depth ++ part.1 ++ part.2.textAt depth ++ ['\n']

theorem partsText_cons (depth : Nat) (label : List Char) (part : Value)
    (parts : List (List Char × Value)) :
    partsText depth ((label, part) :: parts) =
      spaces depth ++ label ++ part.textAt depth ++ '\n' :: partsText depth parts := by
  rw [partsText, List.flatMap_cons, List.append_assoc _ ['\n']]
  rfl

/-- The display of a value goes behind what was displayed before. -/
def Appends (value : Value) : Prop :=
  ∀ done depth, (displayOnto done depth value).toList = done.toList ++ value.textAt depth

theorem toList_displayItems {items : List Value} (each : ∀ item ∈ items, item.Appends)
    (done : String) (depth : Nat) :
    (displayItems done depth items).toList =
      done.toList ++ partsText depth (vector items).parts := by
  induction items generalizing done with
  | nil => exact (List.append_nil _).symm
  | cons item items inductionHypothesis =>
    obtain ⟨first, others⟩ := List.forall_mem_cons.1 each
    show _ = _ ++ partsText depth (([], item) :: (vector items).parts)
    rw [displayItems, inductionHypothesis others, partsText_cons, String.toList_append, first,
      String.toList_append, indent, String.toList_ofList]
    simp [spaces]

theorem toList_displayFields {id : UInt32} {name : String} {fields : List (String × Value)}
    (each : ∀ field ∈ fields, field.2.Appends) (done : String) (depth : Nat) :
    (displayFields done depth fields).toList =
      done.toList ++ partsText depth (object id name fields).parts := by
  induction fields generalizing done with
  | nil => exact (List.append_nil _).symm
  | cons field fields inductionHypothesis =>
    obtain ⟨first, others⟩ := List.forall_mem_cons.1 each
    show _ = _ ++ partsText depth ((_, field.2) :: (object id name fields).parts)
    rw [displayFields, inductionHypothesis others, partsText_cons, String.toList_append, first,
      String.toList_append, String.toList_append, String.toList_append, indent,
      String.toList_ofList]
    simp [spaces]

/-- What a value without parts starts with is all of its text, and that of any other has its
parts on the level below and a closing bracket on its own. -/
def shownText (depth : Nat) (value : Value) : List Char :=
  if value.parts = [] then value.opening
  else value.opening ++ '\n' ::
    (partsText (depth + 1) value.parts ++ (spaces depth ++ [value.closing]))

theorem toList_displayOnto {value : Value} (each : ∀ part ∈ value.parts, part.2.Appends)
    (done : String) (depth : Nat) :
    (displayOnto done depth value).toList = done.toList ++ value.shownText depth := by
  cases value with
  | vector items =>
    cases items with
    | nil => exact String.toList_append
    | cons item items =>
      have appends : ∀ element ∈ item :: items, element.Appends := fun element isElement =>
        each ([], element) (List.mem_map.2 ⟨element, isElement, rfl⟩)
      have some : (vector (item :: items)).parts ≠ [] := List.cons_ne_nil _ _
      rw [displayOnto, String.toList_append, String.toList_append, toList_displayItems appends,
        String.toList_append, indent, String.toList_ofList, shownText, if_neg some]
      simp [spaces, opening, closing]
  | object id name fields =>
    cases fields with
    | nil =>
      rw [displayOnto, String.toList_append, String.toList_append, List.append_assoc]
      rfl
    | cons field fields =>
      have appends : ∀ element ∈ field :: fields, element.2.Appends := fun element isElement =>
        each (element.1.toList ++ [':', ' '], element.2)
          (List.mem_map.2 ⟨element, isElement, rfl⟩)
      have some : (object id name (field :: fields)).parts ≠ [] := List.cons_ne_nil _ _
      rw [displayOnto, String.toList_append, String.toList_append,
        @toList_displayFields id name _ appends, String.toList_append, String.toList_append,
        indent, String.toList_ofList, shownText, if_neg some]
      simp [spaces, opening, closing]
  | _ => exact String.toList_append

theorem appends (value : Value) : value.Appends := by
  induction value using parts_induction with
  | step value inductionHypothesis =>
    intro done depth
    rw [textAt, toList_displayOnto inductionHypothesis, toList_displayOnto inductionHypothesis]
    rfl

theorem textAt_eq (depth : Nat) (value : Value) : value.textAt depth = value.shownText depth :=
  toList_displayOnto (fun part _ => part.2.appends) "" depth

theorem textAt_of_parts_eq_nil {value : Value} (nothing : value.parts = []) (depth : Nat) :
    value.textAt depth = value.opening := by
  rw [textAt_eq, shownText, if_pos nothing]

theorem textAt_of_parts_ne_nil {value : Value} (some : value.parts ≠ []) (depth : Nat) :
    value.textAt depth = value.opening ++ '\n' ::
      (partsText (depth + 1) value.parts ++ (spaces depth ++ [value.closing])) := by
  rw [textAt_eq, shownText, if_neg some]

/-! ### The lines of a value -/

/-- The lines of a value at a level, its first line without the spaces in front. -/
def linesAt (depth : Nat) (value : Value) : List (List Char) :=
  (value.textAt depth).splitOn '\n'

/-- The lines of a part at a level, with the spaces and the label in front of the first. -/
def block (depth : Nat) (label : List Char) (part : Value) : List (List Char) :=
  (part.linesAt depth).modifyHead fun line => spaces depth ++ label ++ line

/-- The lines of parts at a level. -/
def blocks (depth : Nat) (parts : List (List Char × Value)) : List (List Char) :=
  parts.flatMap fun part => block depth part.1 part.2

theorem blocks_cons (depth : Nat) (part : List Char × Value) (parts : List (List Char × Value)) :
    blocks depth (part :: parts) = block depth part.1 part.2 ++ blocks depth parts :=
  List.flatMap_cons

theorem not_newline_mem_spaces (depth : Nat) : '\n' ∉ spaces depth := fun member =>
  absurd (List.eq_of_mem_replicate member) (by decide)

theorem splitOn_partsText (depth : Nat) {parts : List (List Char × Value)}
    (each : ∀ part ∈ parts, IsLabel part.1) (rest : List Char) :
    (partsText depth parts ++ rest).splitOn '\n' = blocks depth parts ++ rest.splitOn '\n' := by
  induction parts with
  | nil => rfl
  | cons part parts inductionHypothesis =>
    obtain ⟨isLabel, others⟩ := List.forall_mem_cons.1 each
    have absent : '\n' ∉ spaces depth ++ part.1 := by
      rw [List.mem_append, not_or]
      exact ⟨not_newline_mem_spaces depth, isLabel.not_newline_mem⟩
    rw [partsText_cons, List.append_assoc, List.cons_append, List.splitOn_append_cons_self,
      inductionHypothesis others, splitOn_append_of_not_mem absent, blocks_cons,
      List.append_assoc]
    rfl

theorem HasSolidNames.linesAt_of_parts_eq_nil {value : Value} (solid : value.HasSolidNames)
    (nothing : value.parts = []) (depth : Nat) : value.linesAt depth = [value.opening] := by
  rw [linesAt, textAt_of_parts_eq_nil nothing,
    List.splitOn_eq_singleton solid.isLine_opening.noBreak]

theorem HasSolidNames.linesAt_of_parts_ne_nil {value : Value} (solid : value.HasSolidNames)
    (some : value.parts ≠ []) (depth : Nat) : value.linesAt depth =
      value.opening :: (blocks (depth + 1) value.parts ++ [spaces depth ++ [value.closing]]) := by
  have noBreak : '\n' ∉ spaces depth ++ [value.closing] := by
    rw [List.mem_append, not_or]
    refine ⟨not_newline_mem_spaces depth, fun member => ?_⟩
    cases value <;> cases List.mem_singleton.1 member
  rw [linesAt, textAt_of_parts_ne_nil some,
    List.splitOn_append_cons_self_of_not_mem solid.isLine_opening.noBreak,
    splitOn_partsText (depth + 1) fun part member => (solid.part member).1,
    List.splitOn_eq_singleton noBreak]

theorem length_blocks {depth : Nat} {parts : List (List Char × Value)}
    (each : ∀ part ∈ parts, (part.2.linesAt depth).length = part.2.lineCount) :
    (blocks depth parts).length = lineCountOfParts parts := by
  rw [blocks, List.length_flatMap, lineCountOfParts]
  refine congrArg List.sum (List.map_congr_left fun part member => ?_)
  rw [block, List.length_modifyHead, each part member]

/-- A value takes up the lines that its parts call for. -/
theorem HasSolidNames.length_linesAt {value : Value} (solid : value.HasSolidNames) (depth : Nat) :
    (value.linesAt depth).length = value.lineCount := by
  induction value using parts_induction generalizing depth with
  | step value inductionHypothesis =>
    by_cases nothing : value.parts = []
    · rw [solid.linesAt_of_parts_eq_nil nothing, lineCount_of_parts_eq_nil nothing]
      rfl
    · have each : ∀ part ∈ value.parts,
          (part.2.linesAt (depth + 1)).length = part.2.lineCount := fun part member =>
        inductionHypothesis part member (solid.part member).2 (depth + 1)
      rw [solid.linesAt_of_parts_ne_nil nothing, lineCount_of_parts_ne_nil nothing,
        List.length_cons, List.length_append, length_blocks each, List.length_singleton]
      omega

theorem blocks_append (depth : Nat) (front back : List (List Char × Value)) :
    blocks depth (front ++ back) = blocks depth front ++ blocks depth back :=
  List.flatMap_append

theorem HasSolidNames.length_blocks_of_split {value : Value} (solid : value.HasSolidNames)
    {before after : List (List Char × Value)} (split : value.parts = before ++ after)
    (depth : Nat) : (blocks depth before).length = lineCountOfParts before :=
  length_blocks fun _ member =>
    (solid.part (split ▸ List.mem_append_left after member)).2.length_linesAt depth

/-- The first line of a block is that of the value, with the spaces and the label in front. -/
theorem HasSolidNames.block_eq {value : Value} (solid : value.HasSolidNames) (depth : Nat)
    (label : List Char) : ∃ others,
      block depth label value = (spaces depth ++ label ++ value.opening) :: others ∧
      (value.parts ≠ [] →
        others = blocks (depth + 1) value.parts ++ [spaces depth ++ [value.closing]]) := by
  by_cases nothing : value.parts = []
  · rw [block, solid.linesAt_of_parts_eq_nil nothing]
    exact ⟨[], rfl, fun some => absurd nothing some⟩
  · rw [block, solid.linesAt_of_parts_ne_nil nothing]
    exact ⟨_, rfl, fun _ => rfl⟩

/-- A part of a whole has its lines where it stands. -/
theorem StandsAt.exists_lines {whole part : Value} {label : List Char} {depth line : Nat}
    (stands : StandsAt whole part label depth line) (solid : whole.HasSolidNames) :
    part.HasSolidNames ∧ IsLabel label ∧ ∃ front back,
      whole.linesAt 0 = front ++ (block depth label part ++ back) ∧ front.length = line := by
  induction stands with
  | whole =>
    refine ⟨solid, Or.inl rfl, [], [], ?_, rfl⟩
    rw [block, List.append_nil, List.nil_append]
    exact (congrFun List.modifyHead_id _).symm
  | @part container inner label innerLabel depth line before after _ split inductionHypothesis =>
    obtain ⟨ofContainer, -, front, back, lines, length⟩ := inductionHypothesis
    have member : (innerLabel, inner) ∈ container.parts := by
      rw [split]
      exact List.mem_append_right before List.mem_cons_self
    obtain ⟨isLabel, ofInner⟩ := ofContainer.part member
    obtain ⟨others, isBlock, isOthers⟩ := ofContainer.block_eq depth label
    rw [isOthers (List.ne_nil_of_mem member), split, blocks_append, blocks_cons] at isBlock
    refine ⟨ofInner, isLabel,
      front ++ (spaces depth ++ label ++ container.opening) :: blocks (depth + 1) before,
      blocks (depth + 1) after ++ ([spaces depth ++ [container.closing]] ++ back), ?_, ?_⟩
    · rw [lines, isBlock]
      simp only [List.append_assoc, List.cons_append]
    · rw [List.length_append, List.length_cons, ofContainer.length_blocks_of_split split, length]
      omega

/-! ### Lines that belong to a part -/

/-- A number below the sum of sizes falls on one of the items. -/
theorem exists_split_of_lt_sum {Item : Type} (size : Item → Nat) {items : List Item} {index : Nat}
    (below : index < (items.map size).sum) : ∃ before item after, items = before ++ item :: after ∧
      (before.map size).sum ≤ index ∧ index < (before.map size).sum + size item := by
  induction items generalizing index with
  | nil => exact absurd below (Nat.not_lt_zero index)
  | cons item items inductionHypothesis =>
    rw [List.map_cons, List.sum_cons] at below
    by_cases inFirst : index < size item
    · refine ⟨[], item, items, rfl, Nat.zero_le index, ?_⟩
      rwa [List.map_nil, List.sum_nil, Nat.zero_add]
    · obtain ⟨before, found, after, rfl, start, stop⟩ :=
        @inductionHypothesis (index - size item) (by omega)
      refine ⟨item :: before, found, after, rfl, ?_, ?_⟩
      · rw [List.map_cons, List.sum_cons]
        omega
      · rw [List.map_cons, List.sum_cons]
        omega

/-- Every line among those of a part is the first line or the closing line of that part, or of
a part inside. -/
theorem StandsAt.exists_of_line {whole part : Value} {label : List Char} {depth line index : Nat}
    (stands : StandsAt whole part label depth line) (start : line ≤ index)
    (stop : index < line + part.lineCount) : ∃ inner label depth line,
      StandsAt whole inner label depth line ∧
      (index = line ∨ inner.parts ≠ [] ∧ index + 1 = line + inner.lineCount) := by
  induction part using parts_induction generalizing label depth line with
  | step part inductionHypothesis =>
    by_cases isFirst : index = line
    · exact ⟨part, label, depth, line, stands, Or.inl isFirst⟩
    · by_cases nothing : part.parts = []
      · rw [lineCount_of_parts_eq_nil nothing] at stop
        omega
      · by_cases isLast : index + 1 = line + part.lineCount
        · exact ⟨part, label, depth, line, stands, Or.inr ⟨nothing, isLast⟩⟩
        · rw [lineCount_of_parts_ne_nil nothing] at stop isLast
          obtain ⟨before, ⟨innerLabel, inner⟩, after, split, after_start, before_stop⟩ :=
            exists_split_of_lt_sum (fun part : List Char × Value => part.2.lineCount)
              (show index - (line + 1) < lineCountOfParts part.parts by omega)
          have member : (innerLabel, inner) ∈ part.parts := by
            rw [split]
            exact List.mem_append_right before List.mem_cons_self
          refine inductionHypothesis _ member (.part stands split) ?_ ?_
          · rw [lineCountOfParts]
            omega
          · rw [lineCountOfParts]
            omega

/-! ### The shape of a display -/

/-- The lines of a display. -/
def printedLines (value : Value) : List (List Char) :=
  value.display.toList.splitOn '\n'

/-- No display ends with a line feed. -/
theorem HasSolidNames.getLast?_textAt_ne {value : Value} (solid : value.HasSolidNames)
    (depth : Nat) : (value.textAt depth).getLast? ≠ some '\n' := by
  by_cases nothing : value.parts = []
  · rw [textAt_of_parts_eq_nil nothing]
    exact fun isLast => solid.isLine_opening.noBreak (List.mem_of_getLast? isLast)
  · rw [textAt_of_parts_ne_nil nothing, ← List.append_assoc, ← List.cons_append,
      ← List.append_assoc, List.getLast?_concat]
    cases value <;> exact nofun

/-- What the lines of a display are when they are counted from the one that a part stands on. -/
theorem StandsAt.getElem?_eq {whole part : Value} {label : List Char} {depth line : Nat}
    (stands : StandsAt whole part label depth line) (solid : whole.HasSolidNames) :
    whole.printedLines[line]? = some (spaces depth ++ (label ++ part.opening)) ∧
      (part.parts ≠ [] → whole.printedLines[line + part.lineCount - 1]? =
        some (spaces depth ++ [part.closing])) := by
  obtain ⟨ofPart, isLabel, front, back, lines, rfl⟩ := stands.exists_lines solid
  obtain ⟨others, isBlock, isOthers⟩ := ofPart.block_eq depth label
  have whole_eq : whole.printedLines = whole.linesAt 0 := rfl
  have behind (front back : List (List Char)) (line : List Char) :
      (front ++ line :: back)[front.length]? = some line := by
    rw [List.getElem?_append_right (Nat.le_refl _), Nat.sub_self, List.getElem?_cons_zero]
  rw [whole_eq, lines, isBlock]
  refine ⟨?_, fun some => ?_⟩
  · rw [List.cons_append, behind, List.append_assoc]
  · have last : front.length + part.lineCount - 1 =
        (front ++ (spaces depth ++ label ++ part.opening) ::
          blocks (depth + 1) part.parts).length := by
      rw [lineCount_of_parts_ne_nil some, List.length_append, List.length_cons,
        ofPart.length_blocks_of_split (List.append_nil _).symm]
      omega
    have around : front ++ ((spaces depth ++ label ++ part.opening) :: others ++ back) =
        (front ++ (spaces depth ++ label ++ part.opening) :: blocks (depth + 1) part.parts) ++
          (spaces depth ++ [part.closing]) :: back := by
      rw [isOthers some]
      simp only [List.append_assoc, List.cons_append, List.nil_append]
    rw [last, around, behind]

/-- The display of a value takes as many lines as its tree calls for, and does not end with a
line feed. Wherever a part stands, its first line has four spaces for each level in front, no
more, and goes on with the label and what the part starts with; and the closing bracket of a
part with parts of its own has just as many spaces in front, and the line to itself. There are
no other lines. -/
theorem display_keepsShape (value : Value) (solid : value.HasSolidNames) :
    value.printedLines.length = value.lineCount ∧
    value.display.toList.getLast? ≠ some '\n' ∧
    (∀ part label depth line, StandsAt value part label depth line →
      value.printedLines[line]? =
        some (List.replicate (4 * depth) ' ' ++ (label ++ part.opening)) ∧
      (label ++ part.opening).head? ≠ some ' ' ∧
      (part.parts ≠ [] → value.printedLines[line + part.lineCount - 1]? =
        some (List.replicate (4 * depth) ' ' ++ [part.closing]))) ∧
    ∀ index < value.lineCount, ∃ part label depth line, StandsAt value part label depth line ∧
      (index = line ∨ part.parts ≠ [] ∧ index + 1 = line + part.lineCount) := by
  refine ⟨solid.length_linesAt 0, solid.getLast?_textAt_ne 0,
    fun part label depth line stands => ?_, fun index below => ?_⟩
  · obtain ⟨first, last⟩ := stands.getElem?_eq solid
    refine ⟨first, ?_, last⟩
    obtain ⟨ofPart, isLabel, -⟩ := stands.exists_lines solid
    obtain ⟨character, rest, starts, notBlank⟩ :=
      (isLabel.isLine_append ofPart.isLine_opening).solid
    rw [starts]
    rintro ⟨⟩
    exact Bool.false_ne_true notBlank.symm
  · exact StandsAt.whole.exists_of_line (Nat.zero_le index) (by rwa [Nat.zero_add])

/-- A note whose text looks like the end of the note and the start of another one. -/
def forgingNote : Value :=
  .object 0x1234 "note" [("text", .string "\n\x7d\nnote#00001234 \x7b"),
    ("tags", .vector [.vector [], .nothing])]

theorem display_keepsShape_forging :
    forgingNote.HasSolidNames ∧ forgingNote.printedLines.length = 7 ∧
      forgingNote.display.toList.getLast? ≠ some '\n' ∧
      forgingNote.printedLines[2]? = some "    tags: [".toList ∧
      forgingNote.printedLines[4]? = some "        null".toList ∧
      forgingNote.printedLines[5]? = some "    ]".toList := by
  have solid : forgingNote.HasSolidNames :=
    .object (by decide) (by decide) (List.forall_mem_cons.2 ⟨.leaf rfl,
      List.forall_mem_singleton.2 (.vector (List.forall_mem_cons.2 ⟨.vector nofun,
        List.forall_mem_singleton.2 (.leaf rfl)⟩))⟩)
  obtain ⟨count, ending, lines, -⟩ := display_keepsShape forgingNote solid
  have itself : StandsAt forgingNote forgingNote [] 0 0 := .whole
  have tags := itself.part (show forgingNote.parts =
    [_] ++ (_, .vector [.vector [], .nothing]) :: [] from rfl)
  have absent := tags.part (show (Value.vector [.vector [], .nothing]).parts =
    [_] ++ ([], .nothing) :: [] from rfl)
  exact ⟨solid, count, ending, (lines _ _ _ _ tags).1, (lines _ _ _ _ absent).1,
    (lines _ _ _ _ tags).2.2 nofun⟩

end TypeLanguage.Value
