import RubySyntax.Proofs.YamlTokenReading

/-!
# Reading the blocks of a written YAML document

A record is written line by line, and each of its lines leaves the scan in front of
the next one.  So the tokens of a written value are those of its entries one after
the other, and the induction on a value carries what follows it in the text.
-/

namespace RubySyntax

/-! ### Scalars behind a colon -/

namespace YamlScan

open YamlCharacter YamlFlowScalar

variable {outer : List Int} {indent margin index line column taken : Nat}
  {rest : List Char} {tokens : List YamlToken}

/-- A scalar is read behind the space in front of it. -/
theorem fetch_space {character : Char} {text : List Char}
    (begins : BeginsToken (character :: text)) (deep : indent ≤ column) :
    (between ⟨index, line, column, ' ' :: character :: text⟩ indent outer false taken).fetch =
      (between ⟨index + 1, line, column + 1, character :: text⟩ indent outer false
        taken).fetchFrom character := by
  have skipped : skipToToken (between ⟨index, line, column, ' ' :: character :: text⟩ indent outer
      false taken) = between ⟨index + 1, line, column + 1, character :: text⟩ indent outer false
        taken := skipToToken_spaces rfl (List.singleton_append ▸ begins)
  rw [fetch, skipped, dropStale_settled rfl]
  simp only [bind, Except.bind]
  rw [closeBlocks_within (by simp only [between]; omega)]
  rfl

/-- A text without quotes is read up to the next line. -/
theorem yields_plain {text : List Char} (noStart : YamlScalarText.startsIndicator text = false)
    (run : YamlScalarText.PlainRun text)
    (continues : Continues indent outer margin rest tokens) (deep : indent ≤ column)
    (writtenColumn : Nat) :
    Yields (between ⟨index, line, column, ' ' ::
        (YamlScalarText.plainFrom (indent + 2) (text.length + 1) writtenColumn text ++
          '\n' :: (List.replicate margin ' ' ++ rest))⟩ indent outer false taken)
      (.scalar (codePoints text) true :: tokens) := by
  obtain ⟨first, others, written, rfl, written_eq, ordinary⟩ :=
    run.exists_head (Nat.lt_succ_self _) (indent + 2) writtenColumn
  obtain ⟨-, noLeading, noAlone⟩ := YamlScalarText.startsIndicator_cons noStart
  rw [← Bool.not_eq_true, List.contains_iff_mem] at noLeading
  have apart : ∀ leading ∈ YamlScalarText.leadingIndicators, first ≠ leading := by
    rintro _ member rfl
    exact noLeading member
  -- A sign is an indicator only in front of a separator, and behind this one more text follows.
  have alone : first ∈ ['-', '?', ':'] →
      atSeparator (written ++ '\n' :: (List.replicate margin ' ' ++ rest)) = false := by
    intro sign
    have noEnd : YamlScalarText.endsIndicator others = false := by
      simp only [List.mem_cons, List.not_mem_nil, or_false] at sign
      rcases sign with rfl | rfl | rfl <;> simpa using noAlone
    obtain ⟨second, more, second_eq, solid⟩ := run.exists_second noEnd (Nat.lt_succ_self _)
      (indent + 2) writtenColumn
    obtain ⟨-, rfl⟩ := List.cons.inj (written_eq.symm.trans second_eq)
    simpa [atSeparator, endsOr] using solid
  obtain ⟨nextIndex, nextLine, read⟩ := run.plain_eq (Nat.le_succ (indent + 1))
    (Nat.lt_succ_of_le continues.within) continues.begins.solid continues.inside
    (by simpa using apart '#' (by decide)) (Nat.lt_succ_self _) writtenColumn (index + 1) line
    (Nat.succ_le_succ deep)
  have begins : BeginsToken (first :: written ++ '\n' :: (List.replicate margin ' ' ++ rest)) :=
    beginsToken_cons ordinary (apart '#' (by decide)) _
  have fetched : (between ⟨index, line, column, ' ' :: (first :: written ++
      '\n' :: (List.replicate margin ' ' ++ rest))⟩ indent outer false taken).fetch =
      .ok ((between ⟨nextIndex, nextLine, margin, rest⟩ indent outer true taken).holding
        [.scalar (codePoints (first :: others)) true]) := by
    rw [written_eq] at read
    rw [List.cons_append] at begins read ⊢
    rw [fetch_space begins deep,
    fetchFrom_plain rfl rfl (by simp [between]) ordinary.1 noLeading alone]
    have indent_eq : ((indent : Int) + 1).toNat = indent + 1 := by omega
    simp [fetchPlain, addCandidate, between, holding, isInsideBrackets, read, push, moveTo,
      allowKey, bind, Except.bind, pure, Except.pure, indent_eq,
      codePoints]
  rw [written_eq]
  refine Yields.of_holding (dropStale_settled rfl) rfl (List.cons_ne_nil _ _) fetched
    fun taken => ?_
  exact continues.here (approaches_spaces nextIndex nextLine margin 0 continues.begins)

theorem fetchFrom_quote {scan : YamlScan} {quote : Char} (inside : scan.cursor.column ≠ 0)
    (isQuote : quote ∈ ['\'', '"']) : scan.fetchFrom quote = scan.fetchQuoted quote := by
  rw [fetchFrom]
  simp only [List.mem_cons, List.not_mem_nil, or_false] at isQuote
  rcases isQuote with rfl | rfl <;> simp [inside]

theorem yields_quoted {quote : Char} (isQuote : quote ∈ ['\'', '"']) {body : List Char}
    {content : List Nat} (written : ∀ behind : List Char, behind.head? ≠ some '\'' →
      QuotedText quote behind (body ++ behind) content)
    (continues : Continues indent outer margin rest tokens) (deep : indent ≤ column) :
    Yields (between ⟨index, line, column, ' ' :: quote ::
        (body ++ '\n' :: (List.replicate margin ' ' ++ rest))⟩ indent outer false taken)
      (.scalar content false :: tokens) := by
  have text := written ('\n' :: (List.replicate margin ' ' ++ rest)) (by simp)
  have begins : BeginsToken (quote :: (body ++ '\n' :: (List.replicate margin ' ' ++ rest))) := by
    simp only [List.mem_cons, List.not_mem_nil, or_false] at isQuote
    rcases isQuote with rfl | rfl <;> exact beginsToken_cons ⟨by decide, by decide⟩ (by decide) _
  obtain ⟨⟨nextIndex, nextLine, nextColumn, _⟩, read, rfl⟩ :=
    @QuotedText.quoted_eq _ isQuote _ _ _ text ⟨index + 1, line, column + 1, _⟩ rfl
  have fetched : (between ⟨index, line, column, ' ' :: quote :: (body ++
      '\n' :: (List.replicate margin ' ' ++ rest))⟩ indent outer false taken).fetch =
      .ok ((between ⟨nextIndex, nextLine, nextColumn, '\n' :: (List.replicate margin ' ' ++ rest)⟩
        indent outer false taken).holding [.scalar content false]) := by
    rw [fetch_space begins deep, fetchFrom_quote (by simp [between]) isQuote]
    simp [fetchQuoted, fetchNode, addCandidate, between, holding, read, push, moveTo, allowKey,
      bind, Except.bind, pure, Except.pure]
  refine Yields.of_holding (dropStale_settled rfl) rfl (List.cons_ne_nil _ _) fetched
    fun taken => ?_
  exact continues.here
    (approaches_lineBreak nextIndex nextLine nextColumn margin continues.begins)

end YamlScan

/-! ### Values that are read back -/

/-- The entries of a record that is written line by line: their keys differ and need no quotes. -/
structure Value.IsRecord (entries : List (String × Value)) : Prop where
  filled : entries ≠ []
  distinct : (entries.map Prod.fst).Nodup
  keys : ∀ entry ∈ entries, YamlScan.IsKey entry.1.toList

/-- A value that is read back as it was behind the key of a record, by the indentation of the
record: its texts are kept, its integers are not too long, and its lists hold records. -/
inductive Value.IsKeptAt : Nat → Value → Prop
  | text {indent : Nat} {text : String} (kept : YamlScalarText.IsKept (indent + 2) text.toList) :
      IsKeptAt indent (.text text)
  | int {indent : Nat} {value : Int} (small : value.natAbs < Value.hugeInteger) :
      IsKeptAt indent (.int value)
  | list {indent : Nat} {records : List (List (String × Value))} (filled : records ≠ [])
      (eachRecord : ∀ entries ∈ records, IsRecord entries)
      (each : ∀ entries ∈ records, ∀ entry ∈ entries, IsKeptAt (indent + 2) entry.2) :
      IsKeptAt indent (.list (records.map fun entries => .record (namedEntries entries)))
  | record {indent : Nat} {entries : List (String × Value)} (isRecord : IsRecord entries)
      (each : ∀ entry ∈ entries, IsKeptAt (indent + 2) entry.2) :
      IsKeptAt indent (.record (namedEntries entries))

namespace YamlWriter

open YamlFlowScalar

mutual

def valueTokens : Value → List YamlToken
  | .record entries => .blockMappingStart :: (entryTokens entries ++ [.blockEnd])
  | .list items => itemTokens items
  | .text text => [.scalar (codePoints text.toList) (YamlScalarText.isPlain text.toList)]
  | value => [.scalar (codePoints value.toText.toList) true]

def entryTokens : List (Value × Value) → List YamlToken
  | [] => []
  | (key, value) :: entries =>
    YamlScan.keyTokens false key.toText.toList ++ (valueTokens value ++ entryTokens entries)

def itemTokens : List Value → List YamlToken
  | [] => []
  | item :: items => .blockEntry :: (valueTokens item ++ itemTokens items)

end

end YamlWriter

namespace YamlScan

open YamlCharacter YamlFlowScalar YamlWriter

/-- The tokens of a value are read behind its key, and those behind it follow. -/
def ReadsEntry (indent : Nat) (value : Value) : Prop :=
  ∀ {outer : List Int} {margin : Nat} {rest : List Char} {tokens : List YamlToken},
    Continues indent outer margin rest tokens → ∀ {column : Nat}, indent ≤ column →
      ∀ index line taken writtenColumn : Nat,
        Yields (between ⟨index, line, column, entryValue indent writtenColumn value ++
          (List.replicate margin ' ' ++ rest)⟩ indent outer false taken)
          (valueTokens value ++ tokens)

theorem exists_write (indent column : Nat) (text : List Char) :
    ∃ written, YamlScalarText.write indent column text = ' ' :: written := by
  rw [YamlScalarText.write]
  split
  · exact ⟨_, rfl⟩
  · split <;> exact ⟨_, rfl⟩

theorem entryValue_text (indent column : Nat) (text : String) :
    entryValue indent column (.text text) =
      YamlScalarText.write (indent + 2) column text.toList ++ ['\n'] := by
  rw [entryValue, scalar] <;> simp

theorem entryValue_int (indent column : Nat) (value : Int) :
    entryValue indent column (.int value) = ' ' :: ((toString value).toList ++ ['\n']) :=
  rfl

theorem entryValue_list {items : List Value} (filled : items ≠ []) (indent column : Nat) :
    entryValue indent column (.list items) = '\n' :: listItems indent false items := by
  obtain ⟨item, others, rfl⟩ := List.exists_cons_of_ne_nil filled
  rfl

theorem entryValue_record {entries : List (String × Value)} (isRecord : Value.IsRecord entries)
    (indent column : Nat) : entryValue indent column (.record (Value.namedEntries entries)) =
      '\n' :: (List.replicate (indent + 2) ' ' ++
        recordEntries (indent + 2) (Value.namedEntries entries)) := by
  obtain ⟨entry, others, rfl⟩ := List.exists_cons_of_ne_nil isRecord.filled
  rfl

/-- What is written behind a colon begins with a space or a line break. -/
theorem atSeparator_entryValue (indent column : Nat) {value : Value} {width : Nat}
    (kept : value.IsKeptAt width) (rest : List Char) :
    atSeparator (entryValue indent column value ++ rest) = true := by
  cases kept with
  | text =>
      obtain ⟨written, written_eq⟩ := exists_write (indent + 2) column _
      rw [entryValue_text, written_eq]
      rfl
  | int =>
      rw [entryValue_int]
      rfl
  | list filled =>
      rw [entryValue_list (by simpa using filled)]
      rfl
  | record isRecord =>
      rw [entryValue_record isRecord]
      rfl

variable {outer : List Int} {outermost : Int} {indent margin : Nat} {rest : List Char}
  {tokens : List YamlToken}

/-- Behind the first key of a record its value and the other entries are read. -/
theorem yields_behindFirst {key : String} {value : Value} {entries : List (String × Value)}
    (keys : ∀ entry ∈ entries, IsKey entry.1.toList)
    (kept : ∀ entry ∈ (key, value) :: entries, entry.2.IsKeptAt indent)
    (each : ∀ entry ∈ (key, value) :: entries, ReadsEntry indent entry.2)
    (continues : Continues indent outer margin rest tokens) :
    ∃ behind, recordEntries indent (Value.namedEntries ((key, value) :: entries)) ++
        (List.replicate margin ' ' ++ rest) = key.toList ++ ':' :: behind ∧
      atSeparator behind = true ∧ ∀ index line taken,
        Yields (between ⟨index, line, indent + key.toList.length + 1, behind⟩ indent outer false
          taken) (valueTokens value ++ (entryTokens (Value.namedEntries entries) ++ tokens)) := by
  have deep (key : String) : indent ≤ indent + key.toList.length + 1 := by omega
  induction entries generalizing key value with
  | nil =>
      have isKept := kept (key, value) (.head _)
      refine ⟨entryValue indent (indent + key.toList.length + 1) value ++
        (List.replicate margin ' ' ++ rest), ?_, atSeparator_entryValue _ _ isKept _,
        fun index line taken => ?_⟩
      · simp [recordEntries, Value.toText]
      · exact each (key, value) (.head _) continues (deep key) index line taken _
  | cons next entries ih =>
      obtain ⟨nextKey, nextValue⟩ := next
      have isKept := kept (key, value) (.head _)
      have isKey := keys (nextKey, nextValue) (.head _)
      obtain ⟨behind, text_eq, ends, reads⟩ := ih (fun entry member => keys entry (.tail _ member))
        (fun entry member => kept entry (.tail _ member))
        (fun entry member => each entry (.tail _ member))
      have goesOn := Continues.of_key isKey ends reads
      refine ⟨entryValue indent (indent + key.toList.length + 1) value ++
        (List.replicate indent ' ' ++ (nextKey.toList ++ ':' :: behind)), ?_,
        atSeparator_entryValue _ _ isKept _, fun index line taken => ?_⟩
      · rw [← text_eq]
        simp [recordEntries, Value.toText, YamlWriter.margin]
      · have yields := each (key, value) (.head _) goesOn (deep key) index line taken
          (indent + key.toList.length + 1)
        simpa [entryTokens, Value.toText] using yields

theorem begins_recordEntries {entries : List (String × Value)} (isRecord : Value.IsRecord entries)
    (indent : Nat) (rest : List Char) :
    BeginsToken (recordEntries indent (Value.namedEntries entries) ++ rest) := by
  obtain ⟨⟨key, value⟩, others, rfl⟩ := List.exists_cons_of_ne_nil isRecord.filled
  have isKey := isRecord.keys (key, value) (.head _)
  simp only [Value.namedEntries_cons, recordEntries, Value.toText, List.append_assoc]
  exact isKey.begins _

theorem itemValue_record {entries : List (String × Value)} (isRecord : Value.IsRecord entries)
    (indent : Nat) : itemValue indent (.record (Value.namedEntries entries)) =
      ' ' :: recordEntries (indent + 2) (Value.namedEntries entries) := by
  obtain ⟨entry, others, rfl⟩ := List.exists_cons_of_ne_nil isRecord.filled
  rfl

theorem yields_record {entries : List (String × Value)} (isRecord : Value.IsRecord entries)
    (kept : ∀ entry ∈ entries, entry.2.IsKeptAt indent)
    (each : ∀ entry ∈ entries, ReadsEntry indent entry.2) (deeper : outermost < indent)
    (continues : Continues indent (outermost :: outer) margin rest (.blockEnd :: tokens))
    {scan : YamlScan} (approaches : Approaches scan (outermost :: outer) indent
      (recordEntries indent (Value.namedEntries entries) ++ (List.replicate margin ' ' ++ rest))) :
    Yields scan (valueTokens (.record (Value.namedEntries entries)) ++ tokens) := by
  obtain ⟨⟨key, value⟩, others, rfl⟩ := List.exists_cons_of_ne_nil isRecord.filled
  have isKey := isRecord.keys (key, value) (.head _)
  obtain ⟨behind, text_eq, ends, reads⟩ := yields_behindFirst
    (fun entry member => isRecord.keys entry (.tail _ member)) kept each continues
  rw [text_eq] at approaches
  have goesOn (index line taken : Nat) : Yields (between
      ⟨index, line, indent + key.toList.length + 1, behind⟩ indent
        (if outermost < indent then outermost :: outer else outer) false taken)
        (valueTokens value ++
          (entryTokens (Value.namedEntries others) ++ .blockEnd :: tokens)) := by
    rw [if_pos deeper]
    exact reads index line taken
  have nothing : ∀ other ∈ ([] : List Int), (indent : Int) < other := by simp
  have yields := yields_key approaches nothing (Int.le_of_lt deeper) isKey ends goesOn
  simpa [deeper, keyTokens, valueTokens, entryTokens, Value.toText] using yields

theorem continues_items {records : List (List (String × Value))}
    (eachRecord : ∀ entries ∈ records, Value.IsRecord entries)
    (kept : ∀ entries ∈ records, ∀ entry ∈ entries, entry.2.IsKeptAt (indent + 2))
    (each : ∀ entries ∈ records, ∀ entry ∈ entries, ReadsEntry (indent + 2) entry.2)
    (continues : Continues indent outer margin rest tokens) :
    ∃ nextMargin next, listItems indent false
        (records.map fun entries => .record (Value.namedEntries entries)) ++
          (List.replicate margin ' ' ++ rest) = List.replicate nextMargin ' ' ++ next ∧
      Continues indent outer nextMargin next (itemTokens
        (records.map fun entries => .record (Value.namedEntries entries)) ++ tokens) := by
  induction records with
  | nil => exact ⟨margin, rest, rfl, continues⟩
  | cons entries records ih =>
      obtain ⟨nextMargin, next, text_eq, goesOn⟩ := ih
        (fun other member => eachRecord other (.tail _ member))
        (fun other member => kept other (.tail _ member))
        (fun other member => each other (.tail _ member))
      have isRecord := eachRecord entries (.head _)
      have deeper : indent < indent + 2 := by omega
      refine ⟨indent, '-' :: ' ' :: (recordEntries (indent + 2) (Value.namedEntries entries) ++
        (List.replicate nextMargin ' ' ++ next)), ?_, ?_⟩
      · rw [← text_eq, List.map_cons, listItems, itemValue_record isRecord]
        simp [YamlWriter.margin]
      · rw [List.map_cons, itemTokens, List.cons_append, List.append_assoc]
        refine .of_dash fun index line taken => ?_
        exact yields_record isRecord (kept entries (.head _)) (each entries (.head _))
          (Int.ofNat_lt.mpr deeper) (goesOn.nest deeper)
          (approaches_spaces index line (indent + 1) 1 (begins_recordEntries isRecord _ _))

/-- A text behind a key is read back. -/
theorem readsEntry_text {text : String} (kept : YamlScalarText.IsKept (indent + 2) text.toList) :
    ReadsEntry indent (.text text) := by
  intro outer margin rest tokens continues column deep index line taken writtenColumn
  rw [entryValue_text, valueTokens, List.append_assoc]
  by_cases plain : YamlScalarText.isPlain text.toList = true
  · obtain ⟨-, noStart, run⟩ := YamlScalarText.isPlain_spec plain
    rw [YamlScalarText.write, if_pos plain, plain]
    exact yields_plain noStart run continues deep _
  · rw [Bool.not_eq_true] at plain
    obtain ⟨quote, isQuote, body, write_eq, -, written⟩ :=
      YamlScalarText.exists_quotedText (Nat.succ_pos _) kept plain writtenColumn
    rw [write_eq, plain]
    exact yields_quoted isQuote written continues deep

/-- An integer behind a key is read back. -/
theorem readsEntry_int (value : Int) : ReadsEntry indent (.int value) := by
  intro outer margin rest tokens continues column deep index line taken writtenColumn
  obtain ⟨noStart, isWord⟩ := YamlScalarText.isPlainWord_toString value
  have read : Yields (between ⟨index, line, column, _⟩ indent outer false taken) _ :=
    yields_plain noStart (.word isWord) continues deep 0
  rw [YamlScalarText.plainFrom_word isWord] at read
  rw [entryValue_int, List.cons_append, List.append_assoc]
  exact read

/-- What is written behind a key is read back. -/
theorem readsEntry {value : Value} (kept : value.IsKeptAt indent) : ReadsEntry indent value := by
  induction kept with
  | text kept => exact readsEntry_text kept
  | int small => exact readsEntry_int _
  | @list indent records filled eachRecord each ih =>
      intro outer margin rest tokens continues column deep index line taken writtenColumn
      obtain ⟨nextMargin, next, text_eq, goesOn⟩ := continues_items eachRecord each ih continues
      rw [entryValue_list (by simpa using filled), List.cons_append, text_eq]
      exact goesOn.here (approaches_lineBreak index line column nextMargin goesOn.begins)
  | @record indent entries isRecord each ih =>
      intro outer margin rest tokens continues column deep index line taken writtenColumn
      have deeper : indent < indent + 2 := by omega
      rw [entryValue_record isRecord, List.cons_append, List.append_assoc]
      exact yields_record isRecord each ih (Int.ofNat_lt.mpr deeper) (continues.nest deeper)
        (approaches_lineBreak index line column (indent + 2) (begins_recordEntries isRecord _ _))

/-! ### The characters of a document -/

/-- A text that may stand in a document and that is long enough for its tokens. -/
structure Fits (text : List Char) (tokens : List YamlToken) : Prop where
  admitted : text.all isAdmitted = true
  enough : tokens.length ≤ 2 * text.length

theorem IsKey.admitted {key : List Char} (isKey : IsKey key) : key.all isAdmitted = true := by
  rw [List.all_eq_true]
  exact fun letter member => YamlScalarText.isAdmitted_of_isAlphanum (isKey.isAlphanum member)

theorem fits_recordEntries {entries : List (String × Value)}
    (keys : ∀ entry ∈ entries, IsKey entry.1.toList)
    (each : ∀ entry ∈ entries, ∀ column,
      Fits (entryValue indent column entry.2) (valueTokens entry.2)) :
    Fits (recordEntries indent (Value.namedEntries entries))
      (entryTokens (Value.namedEntries entries)) := by
  induction entries with
  | nil => exact ⟨rfl, Nat.le_refl _⟩
  | cons entry entries ih =>
      obtain ⟨key, value⟩ := entry
      have isKey := keys (key, value) (.head _)
      have positive := List.length_pos_iff.mpr isKey.filled
      obtain ⟨admitted, enough⟩ := each (key, value) (.head _) (indent + key.toList.length + 1)
      obtain ⟨others, enoughToo⟩ := ih (fun other member => keys other (.tail _ member))
        (fun other member => each other (.tail _ member))
      have blank : isAdmitted ':' = true ∧ isAdmitted ' ' = true := by decide
      have between : (if (Value.namedEntries entries).isEmpty then [] else
          YamlWriter.margin indent).all isAdmitted = true := by
        split <;> simp [YamlWriter.margin, blank]
      constructor
      · simp only [Value.namedEntries_cons, recordEntries, Value.toText, List.all_append,
          List.all_cons, isKey.admitted, admitted, others, between, blank, Bool.and_true]
      · simp only [Value.namedEntries_cons, recordEntries, Value.toText, entryTokens, keyTokens,
          List.length_append, List.length_cons, Bool.false_eq_true, if_false, List.length_nil]
        simp only at enough positive
        omega

theorem fits_listItems {records : List (List (String × Value))}
    (eachRecord : ∀ entries ∈ records, Value.IsRecord entries)
    (each : ∀ entries ∈ records, Fits (recordEntries (indent + 2) (Value.namedEntries entries))
      (entryTokens (Value.namedEntries entries))) :
    Fits (listItems indent false
        (records.map fun entries => .record (Value.namedEntries entries)))
      (itemTokens (records.map fun entries => .record (Value.namedEntries entries))) := by
  induction records with
  | nil => exact ⟨rfl, Nat.le_refl _⟩
  | cons entries records ih =>
      obtain ⟨admitted, enough⟩ := each entries (.head _)
      obtain ⟨others, enoughToo⟩ := ih (fun other member => eachRecord other (.tail _ member))
        (fun other member => each other (.tail _ member))
      have blank : isAdmitted '-' = true ∧ isAdmitted ' ' = true := by decide
      rw [List.map_cons, listItems, itemValue_record (eachRecord entries (.head _))]
      constructor
      · simp [YamlWriter.margin, admitted, others, blank]
      · simp only [itemTokens, valueTokens, List.length_append, List.length_cons, List.length_nil]
        omega

/-- What is written behind a key may stand in a document. -/
theorem fits_entryValue {value : Value} (kept : value.IsKeptAt indent) (column : Nat) :
    Fits (entryValue indent column value) (valueTokens value) := by
  induction kept generalizing column with
  | @text indent text kept =>
      obtain ⟨written, written_eq⟩ := exists_write (indent + 2) column text.toList
      have admitted := YamlScalarText.all_write (Nat.succ_pos _) kept column
      have blank : isAdmitted '\n' = true := by decide
      rw [entryValue_text]
      constructor
      · simp [admitted, blank]
      · simp [written_eq, valueTokens]
        omega
  | @int indent value small =>
      have admitted := YamlScalarText.all_toString value
      have blank : isAdmitted '\n' = true ∧ isAdmitted ' ' = true := by decide
      rw [entryValue_int]
      constructor
      · simp only [List.all_cons, List.all_append, List.all_nil, admitted, blank, Bool.and_true]
      · simp [valueTokens]
        omega
  | @list indent records filled eachRecord each ih =>
      have eachFits (entries : List (String × Value)) (member : entries ∈ records) :=
        fits_recordEntries (eachRecord entries member).keys (ih entries member)
      obtain ⟨admitted, enough⟩ := fits_listItems eachRecord eachFits
      have blank : isAdmitted '\n' = true := by decide
      rw [entryValue_list (by simpa using filled)]
      constructor
      · rw [List.all_cons, admitted, blank]
        rfl
      · rw [valueTokens, List.length_cons]
        omega
  | @record indent entries isRecord each ih =>
      obtain ⟨admitted, enough⟩ := fits_recordEntries isRecord.keys ih
      have blank : isAdmitted '\n' = true ∧ isAdmitted ' ' = true := by decide
      rw [entryValue_record isRecord]
      constructor
      · simp [admitted, blank]
      · simp only [valueTokens, List.length_append, List.length_cons, List.length_replicate,
          List.length_nil]
        omega

/-- The document of a record is scanned as the tokens of the record, of which there are not many
more than characters. -/
theorem scanYaml_document {entries : List (String × Value)} (isRecord : Value.IsRecord entries)
    (each : ∀ entry ∈ entries, entry.2.IsKeptAt 0) :
    let text := document (.record (Value.namedEntries entries))
    let tokens := valueTokens (.record (Value.namedEntries entries))
    scanYaml text = .ok (start text) ∧ Yields (start text) tokens ∧
      tokens.length ≤ 2 * text.length + 2 := by
  have document_eq : document (.record (Value.namedEntries entries)) =
      recordEntries 0 (Value.namedEntries entries) := by
    obtain ⟨entry, others, rfl⟩ := List.exists_cons_of_ne_nil isRecord.filled
    rfl
  obtain ⟨admitted, enough⟩ := fits_recordEntries isRecord.keys
    fun entry member => fits_entryValue (each entry member)
  have approaches : Approaches (start (recordEntries 0 (Value.namedEntries entries))) [-1] 0
      (recordEntries 0 (Value.namedEntries entries) ++ (List.replicate 0 ' ' ++ [])) := by
    rw [List.replicate_zero, List.append_nil, List.append_nil]
    have begins := begins_recordEntries isRecord 0 []
    rw [List.append_nil] at begins
    exact approaches_spaces 0 0 0 0 begins
  have yields := yields_record isRecord each (fun entry member => readsEntry (each entry member))
    (by decide) (.of_end) approaches
  dsimp only
  rw [document_eq]
  refine ⟨if_pos admitted, by rwa [List.append_nil] at yields, ?_⟩
  simp only [valueTokens, List.length_cons, List.length_append, List.length_nil]
  omega

end YamlScan

end RubySyntax
