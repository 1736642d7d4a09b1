import RubySyntax.Proofs.JsonTrees
import RubySyntax.Proofs.YamlValueReading

/-!
# Trees written as YAML

A tree that is written as a YAML document and read again is the tree that it was, but for its
offsets.  The integers of its positions must not have too many digits.  Its texts must be kept:
one without escapes holds no next-line character, and one with escapes is not indented by a
whole line.
-/

namespace RubySyntax

/-! ### Looking up entries -/

namespace HeldField

theorem field?_parts (fields : List HeldField) (name : String) :
    SharedPart.field? (parts fields) name =
      (fields.find? fun field => field.key == name).map HeldField.part := by
  induction fields with
  | nil => rfl
  | cons field fields ih =>
      rw [parts_eq] at ih ⊢
      rw [SharedPart.field?] at ih ⊢
      rw [List.map_cons, List.findSome?_cons, List.find?_cons, ih]
      dsimp only
      cases field.key == name <;> rfl

theorem entry?_entries (fields : List HeldField) (name : String) :
    Value.entry? (entries fields) name =
      (fields.find? fun field => field.key == name).map HeldField.value := by
  induction fields with
  | nil => rfl
  | cons field fields ih =>
      rw [entries_eq] at ih ⊢
      rw [List.map_cons, Node.entry?_cons, List.find?_cons, ih]
      cases field.key == name <;> rfl

variable {shared : SharedValue} {fields : List HeldField} {name : String}

theorem exists_field (each : ∀ field ∈ fields, shared.Holds field.part field.value)
    {value : Value} (found : Value.entry? (entries fields) name = some value) :
    ∃ part, SharedPart.field? (parts fields) name = some part ∧ shared.Holds part value := by
  rw [entry?_entries, Option.map_eq_some_iff] at found
  obtain ⟨field, found, rfl⟩ := found
  refine ⟨field.part, ?_, each field (List.mem_of_find?_eq_some found)⟩
  rw [field?_parts, found]
  rfl

theorem field?_eq_none (missing : Value.entry? (entries fields) name = none) :
    SharedPart.field? (parts fields) name = none := by
  rw [entry?_entries, Option.map_eq_none_iff] at missing
  rw [field?_parts, missing]
  rfl

theorem map_unfold_field? (each : ∀ field ∈ fields, shared.Holds field.part field.value)
    (name : String) : (SharedPart.field? (parts fields) name).map (shared.unfold []) =
      Value.entry? (entries fields) name := by
  cases found : Value.entry? (entries fields) name with
  | none => rw [field?_eq_none found, Option.map_none]
  | some value =>
      obtain ⟨part, part_eq, holds⟩ := exists_field each found
      rw [part_eq, Option.map_some, holds.unfold_eq]

end HeldField

theorem sizeOf_entry_lt {entries : List (Value × Value)} {name : String} {value : Value}
    (found : Value.entry? entries name = some value) :
    sizeOf value < sizeOf (Value.record entries) := by
  obtain ⟨⟨key, held⟩, member, found⟩ := List.exists_of_findSome?_eq_some found
  obtain rfl : held = value := by
    split at found
    · split at found <;> simp_all
    · cases found
  have smaller := List.sizeOf_lt_of_mem member
  rw [Value.record.sizeOf_spec]
  rw [Prod.mk.sizeOf_spec] at smaller
  omega

namespace Node

/-! ### Trees of shared values -/

variable {shared : SharedValue} {tree : SharedPart → Value}

theorem entry?_optional (name key : String) (value : Option Value) (rest : List (Value × Value)) :
    Value.entry? ((value.map fun value => (Value.text name, value)).toList ++ rest) key =
      if name == key then value.or (Value.entry? rest key) else Value.entry? rest key := by
  cases value with
  | none =>
      rw [Option.none_or, ite_self]
      rfl
  | some value =>
      rw [Option.map_some, Option.toList_some, List.singleton_append, entry?_cons]
      rfl

theorem entry?_treeRecord (shared : SharedValue) (tree : SharedPart → Value)
    (parts : List (SharedPart × SharedPart)) :
    ∃ entries, shared.treeRecord tree parts = .record entries ∧
      Value.entry? entries "data" = (SharedPart.field? parts "data").map (shared.unfold []) ∧
      Value.entry? entries "position" =
        (SharedPart.field? parts "position").map (shared.unfold []) ∧
      Value.entry? entries "children" =
        (SharedPart.field? parts "children").map (shared.partTrees tree) ∧
      Value.entry? entries "comments" =
        (SharedPart.field? parts "comments").map (shared.partTrees tree) := by
  have optional (name : String) (value : SharedPart → Value) (part : Option SharedPart) :
      (part.map fun part => (Value.text name, value part)).toList =
        ((part.map value).map fun value => (Value.text name, value)).toList ++ [] := by
    cases part <;> rfl
  refine ⟨_, rfl, ?_⟩
  simp only [optional, List.append_assoc, List.nil_append, entry?_optional]
  simp [Value.entry?]

theorem ofEntry_partTrees {fields : List HeldField} {entries : List (Value × Value)} {key : String}
    {nodes read : List Node} (each : ∀ field ∈ fields, shared.Holds field.part field.value)
    (found : Value.entry? (HeldField.entries fields) key = listed (toValues nodes))
    (unfolded : Value.entry? entries key =
      (SharedPart.field? (HeldField.parts fields) key).map (shared.partTrees tree))
    (reads : ∀ parts, List.Forall₂ shared.Holds parts (toValues nodes) →
      ofValues (parts.map tree) = .ok read) :
    ofEntry key entries = .ok read := by
  rw [ofEntry_eq, unfolded]
  cases values_eq : toValues nodes with
  | nil =>
      rw [values_eq] at found reads
      rw [HeldField.field?_eq_none found]
      have nothing := reads [] .nil
      rw [List.map_nil, ofValues] at nothing
      exact nothing
  | cons value values =>
      rw [values_eq] at found reads
      obtain ⟨part, part_eq, holds⟩ := HeldField.exists_field each found
      obtain ⟨place, parts, rfl, container_eq, held⟩ := holds.items
      rw [part_eq, Option.map_some, Option.map_some, Option.getD_some, SharedValue.partTrees,
        container_eq]
      dsimp only
      rw [ofParts]
      exact reads parts held

theorem sizeOf_listed_lt {values : List Value} {entries : List (Value × Value)} {key : String}
    (found : Value.entry? entries key = listed values) :
    ∀ value ∈ values, sizeOf value < sizeOf (Value.record entries) := by
  intro value member
  have smaller := List.sizeOf_lt_of_mem member
  cases values with
  | nil => cases member
  | cons first others =>
      have inside := sizeOf_entry_lt found
      rw [Value.list.sizeOf_spec] at inside
      omega

mutual

theorem ofValue_treeWithin (node : Node) {part : SharedPart}
    (holds : shared.Holds part node.toValue) {around : List Nat}
    (surrounds : shared.Surrounds around node.toValue) {bound : Nat}
    (enough : shared.containers.size < bound + around.length) :
    ofValue (shared.treeWithin bound around part) = .ok node.withoutOffsets := by
  obtain ⟨entries, value_eq, dataFound, positionFound, childrenFound, commentsFound⟩ :=
    entry?_toValue node
  obtain ⟨data, children, comments, offset, position⟩ := node
  dsimp only at dataFound positionFound childrenFound commentsFound
  rw [value_eq] at holds surrounds
  have inside := holds
  obtain ⟨place, fields, rfl, container_eq, rfl, each⟩ := inside.fields
  obtain ⟨bound, rfl⟩ := surrounds.exists_bound enough
  have enough : shared.containers.size < bound + (place :: around).length := by
    rw [List.length_cons]
    omega
  -- No container around the tree is met again, since each holds a greater value.
  have within {inner : Value} (smaller : sizeOf inner < sizeOf _) :
      shared.Surrounds (place :: around) inner := surrounds.cons holds holds.place_lt smaller
  obtain ⟨dataPart, dataPart_eq, -⟩ := HeldField.exists_field each dataFound
  obtain ⟨unfolded, unfolded_eq, data_eq, position_eq, children_eq, comments_eq⟩ :=
    entry?_treeRecord shared (shared.treeWithin bound (place :: around)) (HeldField.parts fields)
  rw [HeldField.map_unfold_field? each, dataFound] at data_eq
  rw [HeldField.map_unfold_field? each, positionFound] at position_eq
  have childrenRead := ofEntry_partTrees each childrenFound children_eq fun parts held =>
    ofValues_treeWithin children held
      (fun value member => within (sizeOf_listed_lt childrenFound value member)) enough
  have commentsRead := ofEntry_partTrees each commentsFound comments_eq fun parts held =>
    ofValues_treeWithin comments held
      (fun value member => within (sizeOf_listed_lt commentsFound value member)) enough
  have apart : around.contains place = false := by simpa using surrounds.not_mem holds
  rw [SharedValue.treeWithin, container_eq]
  dsimp only
  rw [dataPart_eq, apart, Option.isNone_some, if_neg Bool.false_ne_true, if_neg Bool.false_ne_true,
    unfolded_eq, ofValue_record data_eq position_eq childrenRead commentsRead]
  rw [withoutOffsets]

theorem ofValues_treeWithin (nodes : List Node) {parts : List SharedPart}
    (holds : List.Forall₂ shared.Holds parts (toValues nodes)) {around : List Nat}
    (surrounds : ∀ value ∈ toValues nodes, shared.Surrounds around value) {bound : Nat}
    (enough : shared.containers.size < bound + around.length) :
    ofValues (parts.map (shared.treeWithin bound around)) = .ok (withoutOffsetsAll nodes) := by
  cases nodes with
  | nil =>
      rw [toValues] at holds
      cases holds
      rfl
  | cons node others =>
      rw [toValues] at holds surrounds
      obtain ⟨part, parts, first, rest, rfl⟩ := List.forall₂_cons_right_iff.mp holds
      rw [List.map_cons, ofValues,
        ofValue_treeWithin node first (surrounds _ (.head _)) enough,
        ofValues_treeWithin others rest
          (fun value member => surrounds value (.tail _ member)) enough]
      rfl

end

/-- A tree is read from a shared value that holds its value. -/
theorem ofValue_toTree {node : Node} (holds : shared.Holds shared.root node.toValue) :
    ofValue shared.toTree = .ok node.withoutOffsets :=
  ofValue_treeWithin node holds (.nil shared _) (by rw [List.length_nil]; omega)

/-! ### Trees whose texts are kept -/

mutual

/-- Each text of a tree, of its comments too, is kept where it is written, by the indentation of
the tree. -/
def KeepsTexts (indent : Nat) : Node → Prop
  | ⟨data, children, comments, _, _⟩ =>
    YamlScalarText.IsKept (indent + 2) data.toList ∧ AllKeepTexts (indent + 2) children ∧
      AllKeepTexts (indent + 2) comments

/-- Each text of several trees is kept. -/
def AllKeepTexts (indent : Nat) : List Node → Prop
  | [] => True
  | node :: others => node.KeepsTexts indent ∧ AllKeepTexts indent others

end

mutual

/-- A tree is kept at every indentation if none of its texts needs escapes or holds a next-line
character. -/
theorem keepsTexts_of_simple (node : Node) (indent : Nat)
    (simple : ∀ inner ∈ node.allNodes, YamlScalarText.needsEscapes inner.data.toList = false ∧
      Char.ofNat 0x85 ∉ inner.data.toList) : node.KeepsTexts indent := by
  obtain ⟨data, children, comments, offset, position⟩ := node
  rw [allNodes, List.cons_append, List.forall_mem_cons, List.forall_mem_append] at simple
  obtain ⟨⟨noEscapes, noNextLine⟩, simpleChildren, simpleComments⟩ := simple
  rw [KeepsTexts, YamlScalarText.IsKept, noEscapes, if_neg Bool.false_ne_true]
  exact ⟨noNextLine, allKeepTexts_of_simple children _ simpleChildren,
    allKeepTexts_of_simple comments _ simpleComments⟩

theorem allKeepTexts_of_simple (nodes : List Node) (indent : Nat)
    (simple : ∀ inner ∈ allNodesOfAll nodes,
      YamlScalarText.needsEscapes inner.data.toList = false ∧
        Char.ofNat 0x85 ∉ inner.data.toList) : AllKeepTexts indent nodes := by
  cases nodes with
  | nil => rw [AllKeepTexts]; trivial
  | cons node others =>
      rw [allNodesOfAll, List.forall_mem_append] at simple
      rw [AllKeepTexts]
      exact ⟨keepsTexts_of_simple node indent simple.1,
        allKeepTexts_of_simple others indent simple.2⟩

end

/-- Entries under short names in lower-case letters are written as a record. -/
theorem exists_isRecord {names : List String} {Holds : Value → Prop}
    {entries : List (Value × Value)} (under : AreUnder names Holds entries) (filled : entries ≠ [])
    (distinct : names.Nodup) (keys : ∀ name ∈ names, YamlScan.IsKey name.toList) :
    ∃ named, entries = Value.namedEntries named ∧ Value.IsRecord named ∧
      ∀ entry ∈ named, Holds entry.2 := by
  obtain ⟨named, rfl, sublist, each⟩ := under
  refine ⟨named, rfl, ⟨?_, sublist.nodup distinct, ?_⟩, each⟩
  · rintro rfl
    exact filled rfl
  · exact fun entry member => keys _ (sublist.subset (List.mem_map_of_mem member))

/-- A key of lower-case letters that are checked one after the other. -/
theorem isKey_of_checks {name : String} (checks : (!name.toList.isEmpty &&
    name.toList.all Char.isLower && name.toList.length ≤ 1024 &&
      PlainScalar.kindOf name.toList == .text) = true) : YamlScan.IsKey name.toList := by
  simp only [Bool.and_eq_true, Bool.not_eq_true', List.isEmpty_eq_false_iff, List.all_eq_true,
    decide_eq_true_eq, beq_iff_eq] at checks
  exact ⟨checks.1.1.1, checks.1.1.2, checks.1.2, checks.2⟩

theorem isKey_entryNames : ∀ name ∈ entryNames ++ ["line", "column"],
    YamlScan.IsKey name.toList := by
  intro name member
  have checks : ∀ name ∈ entryNames ++ ["line", "column"], (!name.toList.isEmpty &&
      name.toList.all Char.isLower && name.toList.length ≤ 1024 &&
        PlainScalar.kindOf name.toList == .text) = true := by decide
  exact isKey_of_checks (checks name member)

theorem positionValue_isKeptAt (indent : Nat) {position : Position}
    (displayable : position.isHuge = false) : (positionValue position).IsKeptAt indent := by
  rw [Position.isHuge, Bool.or_eq_false_iff, decide_eq_false_iff_not, decide_eq_false_iff_not,
    Nat.not_le, Nat.not_le] at displayable
  have kept : AreUnder ["line", "column"] (Value.IsKeptAt (indent + 2))
      [(.text "line", .int position.line), (.text "column", .int position.column)] :=
    (AreUnder.singleton "line" (.int displayable.1)).append
      (AreUnder.singleton "column" (.int displayable.2))
  obtain ⟨named, entries_eq, isRecord, each⟩ :=
    exists_isRecord kept (List.cons_ne_nil _ _) (by decide)
      fun name member => isKey_entryNames name (List.mem_append_right _ member)
  rw [positionValue, entries_eq]
  exact .record isRecord each

theorem list_isKeptAt {indent : Nat} {values : List Value}
    (records : ∀ value ∈ values, ∃ entries, value = .record (Value.namedEntries entries) ∧
      Value.IsRecord entries ∧ ∀ entry ∈ entries, entry.2.IsKeptAt (indent + 2))
    (filled : values ≠ []) : Value.IsKeptAt indent (.list values) := by
  obtain ⟨each, rfl, all⟩ : ∃ each : List (List (String × Value)),
      values = each.map (fun entries => .record (Value.namedEntries entries)) ∧
      ∀ entries ∈ each, Value.IsRecord entries ∧
        ∀ entry ∈ entries, entry.2.IsKeptAt (indent + 2) := by
    clear filled
    induction values with
    | nil => exact ⟨[], rfl, by simp⟩
    | cons value values ih =>
        obtain ⟨entries, rfl, kept⟩ := records value (.head _)
        obtain ⟨each, rfl, all⟩ := ih fun other member => records other (.tail _ member)
        exact ⟨entries :: each, rfl, List.forall_mem_cons.mpr ⟨kept, all⟩⟩
  refine .list ?_ (fun entries member => (all entries member).1)
    fun entries member => (all entries member).2
  rintro rfl
  exact filled rfl

mutual

theorem exists_entries (node : Node) {indent : Nat} (kept : node.KeepsTexts indent)
    (displayable : node.holdsHugePosition = false) :
    ∃ entries, node.toValue = .record (Value.namedEntries entries) ∧ Value.IsRecord entries ∧
      ∀ entry ∈ entries, entry.2.IsKeptAt indent := by
  obtain ⟨data, children, comments, offset, position⟩ := node
  rw [KeepsTexts] at kept
  obtain ⟨text, keptChildren, keptComments⟩ := kept
  rw [holdsHugePosition, allNodes, List.cons_append, List.any_cons, List.any_append,
    Bool.or_eq_false_iff, Bool.or_eq_false_iff] at displayable
  obtain ⟨small, smallChildren, smallComments⟩ := displayable
  obtain ⟨entries, value_eq, under⟩ := toValue_areUnder
    ⟨data, children, comments, offset, position⟩ (Value.IsKeptAt.text text)
    (list_isKeptAt (exists_entriesOfAll children keptChildren smallChildren))
    (list_isKeptAt (exists_entriesOfAll comments keptComments smallComments))
    (by
      rintro known rfl
      rw [Option.any_some] at small
      exact positionValue_isKeptAt indent small)
  have filled : entries ≠ [] := by
    rintro rfl
    cases value_eq
  obtain ⟨named, rfl, isRecord, each⟩ :=
    exists_isRecord under filled (by decide)
      fun name member => isKey_entryNames name (List.mem_append_left _ member)
  exact ⟨named, value_eq, isRecord, each⟩

theorem exists_entriesOfAll (nodes : List Node) {indent : Nat} (kept : AllKeepTexts indent nodes)
    (displayable : ((allNodesOfAll nodes).any fun inner => inner.position.any Position.isHuge) =
      false) :
    ∀ value ∈ toValues nodes, ∃ entries, value = .record (Value.namedEntries entries) ∧
      Value.IsRecord entries ∧ ∀ entry ∈ entries, entry.2.IsKeptAt indent := by
  cases nodes with
  | nil =>
      rw [toValues]
      simp
  | cons node others =>
      rw [AllKeepTexts] at kept
      rw [allNodesOfAll, List.any_append, Bool.or_eq_false_iff] at displayable
      rw [toValues]
      exact List.forall_mem_cons.mpr ⟨exists_entries node kept.1 displayable.1,
        exists_entriesOfAll others kept.2 displayable.2⟩

end

/-! ### Documents -/

/-- A tree whose texts are kept is read back from its YAML document, without its offsets. -/
theorem deserialize_serialize_yaml (pretty : Bool) {node : Node} (kept : node.KeepsTexts 0)
    (displayable : node.holdsHugePosition = false) :
    ∃ text, node.serialize .yaml pretty = .ok text ∧
      deserialize .yaml text.toList = .ok node.withoutOffsets := by
  refine ⟨node.document .yaml pretty, by rw [serialize_eq_ite, displayable]; rfl, ?_⟩
  obtain ⟨entries, value_eq, isRecord, each⟩ := exists_entries node kept displayable
  obtain ⟨shared, read, holds⟩ := readYaml_document isRecord each
  have text_eq : (node.document .yaml pretty).toList =
      YamlWriter.document (.record (Value.namedEntries entries)) := by
    rw [← value_eq]
    exact String.toList_ofList
  rw [deserialize, documentValue, text_eq, read]
  exact congrArg (Except.mapError DocumentFault.tree) (ofValue_toTree (value_eq ▸ holds))

/-- Texts that look like something else are quoted, and control characters are escaped. -/
example :
    let note : Node := { data := "# it's", comments := [{ data := "null", offset := some 9 }] }
    let node : Node :=
      { data := "a: b\n\x01", children := [{ data := "- 1" }], comments := [note] }
    ∃ text, node.serialize .yaml false = .ok text ∧
      deserialize .yaml text.toList = .ok node.withoutOffsets := by
  intro note node
  have kept : node.KeepsTexts 0 := by
    simp only [node, note, KeepsTexts, AllKeepTexts]
    decide
  exact deserialize_serialize_yaml false kept rfl

end Node

end RubySyntax
