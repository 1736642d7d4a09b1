import RubySyntax.Proofs.JsonReading
import RubySyntax.Proofs.TreeTokens
import RubySyntax.TreeFormat

/-!
# Trees written as JSON

A tree that is written as a JSON document and read again is the tree that it was, but for its
offsets, which are not written.  The integers of its positions must not have too many digits:
the reader refuses those that do.
-/

namespace RubySyntax

namespace Node

/-! ### Trees without offsets -/

mutual

/-- The tree without the offsets of its nodes. -/
def withoutOffsets : Node → Node
  | ⟨data, children, comments, _, position⟩ =>
    ⟨data, withoutOffsetsAll children, withoutOffsetsAll comments, none, position⟩

def withoutOffsetsAll : List Node → List Node
  | [] => []
  | node :: others => node.withoutOffsets :: withoutOffsetsAll others

end

/-! ### Values of trees -/

/-- The entry that a value is looked up in, beside others. -/
theorem entry?_cons (name key : String) (value : Value) (entries : List (Value × Value)) :
    Value.entry? ((.text name, value) :: entries) key =
      if name == key then some value else Value.entry? entries key := by
  rw [Value.entry?, List.findSome?_cons]
  dsimp only
  split <;> simp_all [Value.entry?]

theorem ofEntry_cons (name key : String) (value : Value) (entries : List (Value × Value)) :
    ofEntry key ((.text name, value) :: entries) =
      if name == key then ofParts value else ofEntry key entries := by
  rw [ofEntry]

/-- The trees under a key are those of the entry that is looked up there. -/
theorem ofEntry_eq (key : String) (entries : List (Value × Value)) :
    ofEntry key entries = ((Value.entry? entries key).map ofParts).getD (.ok []) := by
  induction entries with
  | nil =>
      rw [ofEntry]
      rfl
  | cons entry entries ih =>
      obtain ⟨name, value⟩ := entry
      cases name with
      | text name =>
          rw [ofEntry_cons, entry?_cons, ih]
          split <;> rfl
      | _ =>
          rw [ofEntry, ih]
          · rfl
          · simp

/-- The list of some values, which is left out where there are none. -/
def listed : List Value → Option Value
  | [] => none
  | item :: items => some (.list (item :: items))

theorem entry?_listEntry (name key : String) (values : List Value) (rest : List (Value × Value)) :
    Value.entry? (listEntry name values ++ rest) key =
      if name == key then (listed values).or (Value.entry? rest key)
      else Value.entry? rest key := by
  cases values with
  | nil => simp only [listEntry, List.nil_append, listed, Option.none_or, ite_self]
  | cons value values =>
      rw [listEntry, List.singleton_append, entry?_cons]
      rfl

/-- The trees in a list are read, and none where it is left out. -/
theorem ofEntry_listed {entries : List (Value × Value)} {key : String} {values : List Value}
    {nodes : List Node} (found : Value.entry? entries key = listed values)
    (read : ofValues values = .ok nodes) : ofEntry key entries = .ok nodes := by
  rw [ofEntry_eq, found]
  cases values with
  | nil =>
      rw [ofValues] at read
      exact read
  | cons value values =>
      rw [listed, Option.map_some, Option.getD_some, ofParts]
      exact read

def positionValue (position : Position) : Value :=
  .record [(.text "line", .int position.line), (.text "column", .int position.column)]

theorem entry?_positionEntry (position : Option Position) (key : String) :
    Value.entry? (positionEntry position) key =
      if "position" == key then position.map positionValue else none := by
  cases position with
  | none =>
      rw [positionEntry, Option.map_none, ite_self]
      rfl
  | some position =>
      rw [positionEntry, entry?_cons]
      rfl

theorem positionOf_positionValue (position : Option Position) :
    positionOf (position.map positionValue) = .ok position := by
  cases position <;> rfl

/-- What is looked up in the value of a tree. -/
theorem entry?_toValue (node : Node) : ∃ entries, node.toValue = .record entries ∧
    Value.entry? entries "data" = some (.text node.data) ∧
    Value.entry? entries "position" = node.position.map positionValue ∧
    Value.entry? entries "children" = listed (toValues node.children) ∧
    Value.entry? entries "comments" = listed (toValues node.comments) := by
  obtain ⟨data, children, comments, offset, position⟩ := node
  refine ⟨_, by rw [toValue], ?_⟩
  simp [entry?_cons, entry?_listEntry, entry?_positionEntry]

/-- A tree is read from a record by what is looked up in it. -/
theorem ofValue_record {entries : List (Value × Value)} {data : String}
    {position : Option Position} {children comments : List Node}
    (dataFound : Value.entry? entries "data" = some (.text data))
    (positionFound : Value.entry? entries "position" = position.map positionValue)
    (childrenRead : ofEntry "children" entries = .ok children)
    (commentsRead : ofEntry "comments" entries = .ok comments) :
    ofValue (.record entries) =
      .ok { data := data, children := children, comments := comments, position := position } := by
  rw [ofValue, dataFound]
  dsimp only
  rw [positionFound, positionOf_positionValue, childrenRead, commentsRead]
  rfl

mutual

/-- A tree is read back from its value. -/
theorem ofValue_toValue (node : Node) : ofValue node.toValue = .ok node.withoutOffsets := by
  obtain ⟨entries, value_eq, dataFound, positionFound, childrenFound, commentsFound⟩ :=
    entry?_toValue node
  obtain ⟨data, children, comments, offset, position⟩ := node
  rw [value_eq, ofValue_record dataFound positionFound
    (ofEntry_listed childrenFound (ofValues_toValues children))
    (ofEntry_listed commentsFound (ofValues_toValues comments)), withoutOffsets]

theorem ofValues_toValues (nodes : List Node) :
    ofValues (toValues nodes) = .ok (withoutOffsetsAll nodes) := by
  cases nodes with
  | nil => rfl
  | cons node others =>
      rw [toValues, ofValues, ofValue_toValue node, ofValues_toValues others]
      rfl

end

end Node

/-! ### Entries of trees -/

/-- Entries under some of the names, in their order, whose values have a property. -/
def AreUnder (names : List String) (Holds : Value → Prop) (entries : List (Value × Value)) : Prop :=
  ∃ named : List (String × Value), entries = Value.namedEntries named ∧
    (named.map Prod.fst).Sublist names ∧ ∀ entry ∈ named, Holds entry.2

namespace AreUnder

variable {Holds : Value → Prop}

theorem nil (name : String) : AreUnder [name] Holds [] :=
  ⟨[], rfl, List.nil_sublist _, by simp⟩

theorem singleton (name : String) {value : Value} (holds : Holds value) :
    AreUnder [name] Holds [(.text name, value)] :=
  ⟨[(name, value)], rfl, List.Sublist.refl _, by simpa using holds⟩

theorem append {names others : List String} {front back : List (Value × Value)}
    (first : AreUnder names Holds front) (second : AreUnder others Holds back) :
    AreUnder (names ++ others) Holds (front ++ back) := by
  obtain ⟨named, rfl, sublist, each⟩ := first
  obtain ⟨more, rfl, sublistToo, eachToo⟩ := second
  refine ⟨named ++ more, (List.map_append ..).symm, ?_, fun entry member => ?_⟩
  · rw [List.map_append]
    exact sublist.append sublistToo
  · exact (List.mem_append.mp member).elim (each entry) (eachToo entry)

theorem listEntry (name : String) {values : List Value}
    (holds : values ≠ [] → Holds (.list values)) :
    AreUnder [name] Holds (Node.listEntry name values) := by
  cases values with
  | nil => exact nil name
  | cons value values => exact singleton name (holds (List.cons_ne_nil value values))

theorem positionEntry {position : Option Position}
    (holds : ∀ known, position = some known → Holds (Node.positionValue known)) :
    AreUnder ["position"] Holds (Node.positionEntry position) := by
  cases position with
  | none => exact nil _
  | some position => exact singleton _ (holds position rfl)

theorem record {names : List String} {entries : List (Value × Value)}
    (plain : AreUnder names Value.IsPlain entries) (distinct : names.Nodup) :
    (Value.record entries).IsPlain := by
  obtain ⟨named, rfl, sublist, each⟩ := plain
  exact .record (sublist.nodup distinct) each

end AreUnder

namespace Node

def entryNames : List String :=
  ["data", "children", "comments", "position"]

theorem toValue_areUnder {Holds : Value → Prop} (node : Node) (text : Holds (.text node.data))
    (children : toValues node.children ≠ [] → Holds (.list (toValues node.children)))
    (comments : toValues node.comments ≠ [] → Holds (.list (toValues node.comments)))
    (position : ∀ known, node.position = some known → Holds (positionValue known)) :
    ∃ entries, node.toValue = .record entries ∧ AreUnder entryNames Holds entries := by
  refine ⟨_, ?_, (AreUnder.singleton "data" text).append
    ((AreUnder.listEntry "children" children).append
      ((AreUnder.listEntry "comments" comments).append (AreUnder.positionEntry position)))⟩
  cases node
  rw [toValue]
  rfl

/-! ### Trees as plain values -/

theorem positionValue_isPlain (position : Position) : (positionValue position).IsPlain := by
  have plain : AreUnder ["line", "column"] Value.IsPlain
      [(.text "line", .int position.line), (.text "column", .int position.column)] :=
    (AreUnder.singleton "line" (.int position.line)).append
      (AreUnder.singleton "column" (.int position.column))
  exact plain.record (by decide)

mutual

theorem toValue_isPlain (node : Node) : node.toValue.IsPlain := by
  obtain ⟨data, children, comments, offset, position⟩ := node
  obtain ⟨entries, value_eq, plain⟩ := toValue_areUnder ⟨data, children, comments, offset, position⟩
    (.text data) (fun _ => .list (toValues_isPlain children))
    (fun _ => .list (toValues_isPlain comments)) fun known _ => positionValue_isPlain known
  rw [value_eq]
  exact plain.record (by decide)

theorem toValues_isPlain (nodes : List Node) : ∀ value ∈ toValues nodes, value.IsPlain := by
  cases nodes with
  | nil => simp [toValues]
  | cons node others =>
      rw [toValues]
      rintro value (_ | ⟨_, member⟩)
      · exact toValue_isPlain node
      · exact toValues_isPlain others value member

end

end Node

/-! ### Integers that are too long -/

/-- Whether an integer of a position is too long to be displayed. -/
def Position.isHuge (position : Position) : Bool :=
  Value.hugeInteger ≤ position.line.natAbs || Value.hugeInteger ≤ position.column.natAbs

namespace Node

/-- Whether a position in a tree, of its comments too, has an integer that is too long. -/
def holdsHugePosition (node : Node) : Bool :=
  node.allNodes.any fun inner => inner.position.any Position.isHuge

theorem anyEntryHoldsHugeInteger_append (front back : List (Value × Value)) :
    Value.anyEntryHoldsHugeInteger (front ++ back) =
      (Value.anyEntryHoldsHugeInteger front || Value.anyEntryHoldsHugeInteger back) := by
  induction front with
  | nil => rfl
  | cons entry front ih =>
      obtain ⟨key, value⟩ := entry
      simp only [List.cons_append, Value.anyEntryHoldsHugeInteger, ih, Bool.or_assoc]

theorem anyEntryHoldsHugeInteger_listEntry (name : String) (values : List Value) :
    Value.anyEntryHoldsHugeInteger (listEntry name values) = Value.anyHoldsHugeInteger values := by
  cases values with
  | nil => rfl
  | cons value values =>
      simp [listEntry, Value.anyEntryHoldsHugeInteger, Value.holdsHugeInteger]

theorem anyEntryHoldsHugeInteger_positionEntry (position : Option Position) :
    Value.anyEntryHoldsHugeInteger (positionEntry position) = position.any Position.isHuge := by
  cases position with
  | none => rfl
  | some position =>
      simp [positionEntry, Value.anyEntryHoldsHugeInteger, Value.holdsHugeInteger, Position.isHuge]

mutual

/-- The value of a tree holds an integer that is too long where a position of the tree does. -/
theorem holdsHugeInteger_toValue (node : Node) :
    node.toValue.holdsHugeInteger = node.holdsHugePosition := by
  obtain ⟨data, children, comments, offset, position⟩ := node
  rw [toValue, Value.holdsHugeInteger, Value.anyEntryHoldsHugeInteger,
    anyEntryHoldsHugeInteger_append, anyEntryHoldsHugeInteger_append,
    anyEntryHoldsHugeInteger_listEntry, anyEntryHoldsHugeInteger_listEntry,
    anyEntryHoldsHugeInteger_positionEntry, anyHoldsHugeInteger_toValues children,
    anyHoldsHugeInteger_toValues comments, holdsHugePosition, allNodes]
  simp only [Value.holdsHugeInteger, List.any_cons, List.any_append, Bool.false_or]
  ac_rfl

theorem anyHoldsHugeInteger_toValues (nodes : List Node) :
    Value.anyHoldsHugeInteger (toValues nodes) =
      (allNodesOfAll nodes).any fun inner => inner.position.any Position.isHuge := by
  cases nodes with
  | nil => rfl
  | cons node others =>
      rw [toValues, Value.anyHoldsHugeInteger, holdsHugeInteger_toValue node,
        anyHoldsHugeInteger_toValues others, allNodesOfAll, List.any_append]
      rfl

end

/-! ### Documents -/

/-- A tree has a document where none of its positions has an integer that is too long. -/
theorem serialize_eq_ite (format : TreeFormat) (pretty : Bool) (node : Node) :
    node.serialize format pretty =
      if node.holdsHugePosition then .error .hugeInteger
      else .ok (node.document format pretty) := by
  rw [serialize, holdsHugeInteger_toValue]

/-- A tree is read back from its document, on one line or on many, without its offsets. -/
theorem deserialize_serialize_json (pretty : Bool) (node : Node)
    (displayable : node.holdsHugePosition = false) :
    ∃ text, node.serialize .json pretty = .ok text ∧
      deserialize .json text.toList = .ok node.withoutOffsets := by
  refine ⟨node.document .json pretty, by rw [serialize_eq_ite, displayable]; rfl, ?_⟩
  have read : JsonReader.readDocument (node.document .json pretty).toList = .ok node.toValue := by
    have reading := JsonReader.readDocument_writeJson pretty (toValue_isPlain node)
    rwa [holdsHugeInteger_toValue, displayable] at reading
  rw [deserialize, documentValue, read]
  exact congrArg (Except.mapError DocumentFault.tree) (ofValue_toValue node)

/-- Quotes, backslashes and control characters are undone, in comments on comments too. -/
theorem deserialize_serialize_json_escapes :
    let note : Node :=
      { data := "\t#", comments := [{ data := "\\", offset := some 9 }], position := some ⟨-1, 7⟩ }
    let node : Node := { data := "a\"\n\\\x01", children := [{ data := "" }], comments := [note] }
    node.holdsHugePosition = false ∧
      ∃ text, node.serialize .json true = .ok text ∧
        deserialize .json text.toList = .ok node.withoutOffsets := by
  have small : 9 < Value.hugeInteger := (JsonReader.lt_hugeInteger_iff 9).mpr (by decide)
  intro note node
  have displayable : node.holdsHugePosition = false := by
    simp only [node, note, holdsHugePosition, allNodes, allNodesOfAll, List.any_cons,
      List.cons_append, List.append_nil, Option.any, Position.isHuge]
    generalize Value.hugeInteger = limit at small
    simp
    omega
  exact ⟨displayable, deserialize_serialize_json true node displayable⟩

/-- What would be the document of a tree with an integer that is too long is refused. -/
theorem deserialize_document_json_refused (pretty : Bool) {node : Node}
    (huge : node.holdsHugePosition = true) :
    ∃ fault, deserialize .json (node.document .json pretty).toList = .error fault := by
  have reading := JsonReader.readDocument_writeJson pretty (toValue_isPlain node)
  rw [holdsHugeInteger_toValue, huge] at reading
  obtain ⟨fault, read⟩ : ∃ fault,
    JsonReader.readDocument (node.document .json pretty).toList = .error fault := reading
  exact ⟨_, by rw [deserialize, documentValue, read]; rfl⟩

/-- A line number that is too long is neither written nor read back. -/
theorem deserialize_serialize_json_huge :
    let node : Node := { data := "a", position := some ⟨Value.hugeInteger, 0⟩ }
    (¬ ∃ text, node.serialize .json false = .ok text ∧
      deserialize .json text.toList = .ok node.withoutOffsets) ∧
    ∃ fault, deserialize .json (node.document .json false).toList = .error fault := by
  intro node
  have huge : node.holdsHugePosition = true := by
    simp only [node, holdsHugePosition, allNodes, allNodesOfAll, Option.any,
      Position.isHuge]
    generalize Value.hugeInteger = limit
    simp
  refine ⟨?_, deserialize_document_json_refused false huge⟩
  rintro ⟨text, written, -⟩
  rw [serialize_eq_ite, huge] at written
  cases written

end Node

end RubySyntax
