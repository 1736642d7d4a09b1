import RubySyntax.Proofs.YamlBlockReading
import RubySyntax.YamlDocument

/-!
# Composing the nodes of a written YAML document

Each collection is noted before its parts and completed behind them, so its parts
have greater numbers and no node refers to an earlier one.  What a node denotes is
kept by all that is added later and by the completion of the collections around it.
-/

namespace RubySyntax

/-! ### What nodes denote -/

/-- An entry of a mapping: the numbers of its nodes, its key and its value. -/
structure DenotedEntry where
  keyNumber : Nat
  key : String
  number : Nat
  value : Value

namespace YamlGraph

open YamlFlowScalar

/-- The node with a number denotes a value, and the nodes of its parts have greater numbers. -/
inductive Denotes (graph : YamlGraph) : Nat → Value → Prop
  | text {number : Nat} {text : String}
      (node_eq : graph.node? number = some (.scalar YamlTag.text (codePoints text.toList))) :
      Denotes graph number (.text text)
  | int {number : Nat} {value : Int} (small : value.natAbs < Value.hugeInteger)
      (node_eq : graph.node? number =
        some (.scalar (YamlTag.ofPlainKind .int) (codePoints (toString value).toList))) :
      Denotes graph number (.int value)
  | list {number : Nat} {parts : List (Nat × Value)}
      (node_eq : graph.node? number = some (.sequence YamlTag.sequence (parts.map Prod.fst)))
      (inner : ∀ part ∈ parts, number < part.1)
      (each : ∀ part ∈ parts, Denotes graph part.1 part.2) :
      Denotes graph number (.list (parts.map Prod.snd))
  | record {number : Nat} {entries : List DenotedEntry}
      (node_eq : graph.node? number = some (.mapping YamlTag.mapping
        (entries.map fun entry => (entry.keyNumber, entry.number))))
      (distinct : (entries.map DenotedEntry.key).Nodup)
      (inner : ∀ entry ∈ entries, number < entry.keyNumber ∧ number < entry.number)
      (keys : ∀ entry ∈ entries, graph.node? entry.keyNumber =
        some (.scalar YamlTag.text (codePoints entry.key.toList)))
      (each : ∀ entry ∈ entries, Denotes graph entry.number entry.value) :
      Denotes graph number
        (.record (Value.namedEntries (entries.map fun entry => (entry.key, entry.value))))

/-- A graph keeps the nodes from a number on. -/
def Keeps (graph other : YamlGraph) (number : Nat) : Prop :=
  ∀ place node, number ≤ place → graph.node? place = some node → other.node? place = some node

/-- A node denotes the same in a graph that keeps it and those behind it. -/
theorem Denotes.of_keeps {graph other : YamlGraph} {number : Nat} {value : Value}
    (denotes : graph.Denotes number value) (keeps : graph.Keeps other number) :
    other.Denotes number value := by
  induction denotes with
  | text node_eq => exact .text (keeps _ _ (Nat.le_refl _) node_eq)
  | int small node_eq => exact .int small (keeps _ _ (Nat.le_refl _) node_eq)
  | list node_eq inner each ih =>
      refine .list (keeps _ _ (Nat.le_refl _) node_eq) inner fun part member => ?_
      exact ih part member fun place node behind =>
        keeps place node (Nat.le_trans (Nat.le_of_lt (inner part member)) behind)
  | record node_eq distinct inner keys each ih =>
      refine .record (keeps _ _ (Nat.le_refl _) node_eq) distinct inner
        (fun entry member => ?_) fun entry member => ?_
      · exact keeps _ _ (Nat.le_of_lt (inner entry member).1) (keys entry member)
      · exact ih entry member fun place node behind =>
          keeps place node (Nat.le_trans (Nat.le_of_lt (inner entry member).2) behind)

structure Grows (graph grown : YamlGraph) : Prop where
  size_le : graph.size ≤ grown.size
  same : ∀ number < graph.size, grown.node? number = graph.node? number

namespace Grows

variable {graph grown further : YamlGraph}

theorem refl (graph : YamlGraph) : graph.Grows graph :=
  ⟨Nat.le_refl _, fun _ _ => rfl⟩

theorem trans (first : graph.Grows grown) (second : grown.Grows further) :
    graph.Grows further :=
  ⟨Nat.le_trans first.size_le second.size_le, fun number inside =>
    (second.same number (Nat.lt_of_lt_of_le inside first.size_le)).trans (first.same number inside)⟩

theorem keeps (grows : graph.Grows grown) (number : Nat) : graph.Keeps grown number := by
  intro place node _ node_eq
  have inside : place < graph.size := by
    rw [node?, Array.getElem?_eq_some_iff] at node_eq
    exact node_eq.1
  rw [grows.same place inside, node_eq]

end Grows

theorem size_push (graph : YamlGraph) (node : YamlNode) :
    (graph.push node).size = graph.size + 1 :=
  Array.size_push node

theorem node?_push (graph : YamlGraph) (node : YamlNode) :
    (graph.push node).node? graph.size = some node := by
  simp [node?, push, size]

theorem grows_push (graph : YamlGraph) (node : YamlNode) : graph.Grows (graph.push node) where
  size_le := by
    rw [size_push]
    exact Nat.le_succ _
  same := fun number inside => by
    have apart : number ≠ graph.nodes.size := Nat.ne_of_lt inside
    simp [node?, push, Array.getElem?_push, apart]

section Replace

variable {graph grown : YamlGraph} {node completed : YamlNode}

theorem grows_replace (grows : (graph.push node).Grows grown) :
    graph.Grows (grown.replace graph.size completed) where
  size_le := by
    have inner := (grows_push graph node).trans grows
    simpa [replace, size] using inner.size_le
  same := fun number inside => by
    have inner := (grows_push graph node).trans grows
    have apart : graph.size ≠ number := Nat.ne_of_gt inside
    rw [← inner.same number inside]
    simp [node?, replace, apart]

theorem node?_replace (grows : (graph.push node).Grows grown) :
    (grown.replace graph.size completed).node? graph.size = some completed := by
  have inside : graph.size < grown.nodes.size := by
    have size_le := grows.size_le
    rw [size_push] at size_le
    exact size_le
  simp [node?, replace, inside]

/-- The completion of a node keeps the nodes behind it. -/
theorem keeps_replace {number further : Nat} (inside : number < further) :
    graph.Keeps (graph.replace number completed) further := by
  intro place node behind node_eq
  have apart : number ≠ place := by omega
  rw [← node_eq]
  simp [node?, replace, apart]

end Replace

end YamlGraph

/-! ### Composition step by step -/

theorem run_bind_ok {σ ε α β : Type} {act : StateT σ (Except ε) α}
    {next : α → StateT σ (Except ε) β} {result : α} {state behind : σ}
    (run : act.run state = .ok (result, behind)) :
    (act >>= next).run state = (next result).run behind := by
  rw [StateT.run_bind, run]
  rfl

namespace YamlDocument

open YamlScan YamlFlowScalar YamlWriter

/-- A composition whose next token is known, and whose scan yields some tokens. -/
structure Reads (state : YamlComposition) (tokens : List YamlToken) : Prop where
  yields : Yields state.scan tokens
  known : state.scan.isNextKnown = true

theorem peek_eq {state : YamlComposition} {ahead : YamlScan}
    (looked : state.scan.lookAhead = .ok ahead) :
    peek.run state = .ok (ahead.pending.head?, { state with scan := ahead }) := by
  simp [peek, looked, next?]

/-- The next token is looked at, which changes nothing else. -/
theorem peek_run {state : YamlComposition} {tokens : List YamlToken}
    (yields : Yields state.scan tokens) :
    ∃ scan, peek.run state = .ok (tokens.head?, { state with scan := scan }) ∧
      Reads { state with scan := scan } tokens := by
  cases yields with
  | @done _ ahead looked known nothing =>
      have run := peek_eq looked
      rw [nothing] at run
      exact ⟨ahead, run, .done (lookAhead_known known) known nothing, known⟩
  | @token _ ahead token pending tokens looked known pending_eq behind =>
      have run := peek_eq looked
      rw [pending_eq] at run
      exact ⟨ahead, run, .token (lookAhead_known known) known pending_eq behind, known⟩

/-- A token that is already known is looked at again. -/
theorem peek_known {state : YamlComposition} {tokens : List YamlToken}
    (reads : Reads state tokens) : peek.run state = .ok (tokens.head?, state) := by
  obtain ⟨yields, known⟩ := reads
  have run := peek_eq (lookAhead_known known)
  cases yields with
  | done looked knownAhead nothing =>
      obtain rfl := Except.ok.inj ((lookAhead_known known).symm.trans looked)
      rwa [nothing] at run
  | token looked knownAhead pending_eq behind =>
      obtain rfl := Except.ok.inj ((lookAhead_known known).symm.trans looked)
      rwa [pending_eq] at run

theorem advance_run {state : YamlComposition} {token : YamlToken} {tokens : List YamlToken}
    (reads : Reads state (token :: tokens)) :
    advance.run state = .ok ((), { state with scan := state.scan.take }) ∧
      Yields state.scan.take tokens := by
  obtain ⟨yields, known⟩ := reads
  refine ⟨rfl, ?_⟩
  cases yields with
  | token looked knownAhead pending_eq behind =>
      obtain rfl := Except.ok.inj ((lookAhead_known known).symm.trans looked)
      exact behind

variable {state : YamlComposition} {token : YamlToken} {tokens : List YamlToken}

theorem atAny_run (listed : List YamlToken) (yields : Yields state.scan tokens) :
    ∃ scan, (atAny listed).run state =
        .ok (tokens.head?.any listed.contains, { state with scan := scan }) ∧
      Reads { state with scan := scan } tokens := by
  obtain ⟨scan, run, reads⟩ := peek_run yields
  refine ⟨scan, ?_, reads⟩
  rw [atAny, run_bind_ok run]
  cases tokens <;> rfl

/-- The given token is taken where it is next. -/
theorem takeIf_run (yields : Yields state.scan (token :: tokens)) :
    ∃ scan, (takeIf token).run state = .ok (true, { state with scan := scan }) ∧
      Yields scan tokens := by
  obtain ⟨scan, run, reads⟩ := atAny_run [token] yields
  obtain ⟨taken, behind⟩ := advance_run reads
  have isNext : (token :: tokens).head?.any [token].contains = true := by simp
  rw [isNext] at run
  refine ⟨scan.take, ?_, behind⟩
  rw [takeIf, run_bind_ok run, if_pos rfl, run_bind_ok taken]
  rfl

/-- Another token is left where it is. -/
theorem takeIf_run_other (yields : Yields state.scan tokens) (apart : tokens.head? ≠ some token) :
    ∃ scan, (takeIf token).run state = .ok (false, { state with scan := scan }) ∧
      Yields scan tokens := by
  obtain ⟨scan, run, reads⟩ := atAny_run [token] yields
  have isOther : tokens.head?.any [token].contains = false := by
    cases tokens with
    | nil => rfl
    | cons next tokens => simpa using apart
  rw [isOther] at run
  refine ⟨scan, ?_, reads.yields⟩
  rw [takeIf, run_bind_ok run]
  rfl

theorem expect_run (yields : Yields state.scan (token :: tokens)) :
    ∃ scan, (expect token).run state = .ok ((), { state with scan := scan }) ∧
      Yields scan tokens := by
  obtain ⟨scan, run, behind⟩ := takeIf_run yields
  refine ⟨scan, ?_, behind⟩
  rw [expect, run_bind_ok run]
  rfl

/-- A node is composed where none of the given tokens shows that it is left out. -/
theorem unlessAt_run {listed : List YamlToken} (composed : Composing Nat)
    (yields : Yields state.scan (token :: tokens)) (apart : token ∉ listed) :
    ∃ scan, (unlessAt listed composed).run state = composed.run { state with scan := scan } ∧
      Yields scan (token :: tokens) := by
  obtain ⟨scan, run, reads⟩ := atAny_run listed yields
  have isOther : (token :: tokens).head?.any listed.contains = false := by simpa using apart
  rw [isOther] at run
  refine ⟨scan, ?_, reads.yields⟩
  rw [unlessAt, run_bind_ok run]
  rfl

/-- A token with which the content of a node begins: no alias, anchor or tag. -/
def IsContent : YamlToken → Prop
  | .alias _ => False
  | .anchor _ => False
  | .tag _ _ => False
  | _ => True

theorem takeProperties_run (reads : Reads state (token :: tokens)) (content : IsContent token) :
    takeProperties.run state = .ok ((none, none), state) := by
  have run := peek_known reads
  have noAnchor : takeAnchor?.run state = .ok (none, state) := by
    rw [takeAnchor?, run_bind_ok run]
    cases token <;> first | rfl | cases content
  have noTag : takeTag?.run state = .ok (none, state) := by
    rw [takeTag?, run_bind_ok run]
    cases token <;> first | rfl | cases content
  rw [takeProperties, run_bind_ok noAnchor]
  dsimp only
  rw [run_bind_ok noTag]
  rfl

/-! ### Nodes -/

theorem node_scalar {content : List Nat} {isPlain : Bool} (bound : Nat) (setting : Setting)
    (yields : Yields state.scan (.scalar content isPlain :: tokens)) :
    ∃ scan, (node (bound + 1) setting).run state =
        .ok (state.graph.size, { state with
          scan := scan
          graph := state.graph.push (.scalar (scalarTag none content isPlain) content) }) ∧
      Yields scan tokens := by
  obtain ⟨scan, run, reads⟩ := peek_run yields
  obtain ⟨taken, behind⟩ := advance_run reads
  have bare := takeProperties_run reads trivial
  refine ⟨scan.take, ?_, behind⟩
  rw [node, run_bind_ok run]
  dsimp only [List.head?_cons]
  rw [run_bind_ok bare]
  dsimp only
  rw [run_bind_ok (peek_known reads)]
  rfl

/-- A node has been added to a graph with all that is inside it. -/
structure Composed (graph : YamlGraph) (next : YamlComposition) (number : Nat) (value : Value)
    (rest : List YamlToken) : Prop where
  yields : Yields next.scan rest
  grows : graph.Grows next.graph
  inner : graph.size ≤ number
  denotes : next.graph.Denotes number value

/-- A value behind a key is composed, in front of tokens that do not go on with a list. -/
def ComposesEntry (value : Value) : Prop :=
  ∀ {state : YamlComposition} {rest : List YamlToken} {bound : Nat},
    Yields state.scan (valueTokens value ++ rest) → rest.head? ≠ some .blockEntry →
      2 * (valueTokens value).length + 2 ≤ bound →
      ∃ number next, (node bound .entry).run state = .ok (number, next) ∧
        Composed state.graph next number value rest

/-- The tag of a scalar without quotes says what its text denotes. -/
theorem scalarTag_plain {text : List Char} (noFeed : text.getLast? ≠ some '\n') :
    scalarTag none (codePoints text) true = YamlTag.ofPlainKind (PlainScalar.kindOf text) := by
  have back : (codePoints text).map Char.ofNat = text := YamlScalarValue.characters_codePoints text
  simp [scalarTag, back, PlainScalar.suggestedKind, noFeed]

theorem scalarTag_text (text : List Char) :
    scalarTag none (codePoints text) (YamlScalarText.isPlain text) = YamlTag.text := by
  by_cases plain : YamlScalarText.isPlain text = true
  · rw [plain, scalarTag_plain (YamlScalarText.isPlain_getLast? plain),
      (YamlScalarText.isPlain_spec plain).1]
    rfl
  · rw [Bool.not_eq_true] at plain
    rw [plain]
    rfl

theorem composesEntry_text (text : String) : ComposesEntry (.text text) := by
  intro state rest bound yields _ enough
  obtain ⟨bound, rfl⟩ : ∃ less, bound = less + 1 := ⟨bound - 1, by omega⟩
  obtain ⟨scan, run, behind⟩ := node_scalar bound .entry yields
  refine ⟨_, _, run, behind, YamlGraph.grows_push _ _, Nat.le_refl _, .text ?_⟩
  rw [YamlGraph.node?_push, scalarTag_text]

theorem composesEntry_int {value : Int} (small : value.natAbs < Value.hugeInteger) :
    ComposesEntry (.int value) := by
  intro state rest bound yields _ enough
  obtain ⟨bound, rfl⟩ : ∃ less, bound = less + 1 := ⟨bound - 1, by omega⟩
  obtain ⟨scan, run, behind⟩ := node_scalar bound .entry yields
  have noFeed : (toString value).toList.getLast? ≠ some '\n' := fun isFeed =>
    absurd (((YamlScalarText.isPlainWord_toString value).2.ordinary '\n'
      (List.mem_of_getLast? isFeed)).1) (by decide)
  refine ⟨_, _, run, behind, YamlGraph.grows_push _ _, Nat.le_refl _, .int small ?_⟩
  have tag_eq := scalarTag_plain noFeed
  rw [PlainScalar.kindOf_toString] at tag_eq
  rw [YamlGraph.node?_push]
  exact congrArg (fun tag => some (YamlNode.scalar tag _)) tag_eq

/-- The entries of a mapping have been added to a graph. -/
structure ComposedEntries (graph : YamlGraph) (next : YamlComposition)
    (entries : List DenotedEntry) (rest : List YamlToken) : Prop where
  yields : Yields next.scan rest
  grows : graph.Grows next.graph
  inner : ∀ entry ∈ entries, graph.size ≤ entry.keyNumber ∧ graph.size ≤ entry.number
  keys : ∀ entry ∈ entries, next.graph.node? entry.keyNumber =
    some (.scalar YamlTag.text (codePoints entry.key.toList))
  each : ∀ entry ∈ entries, next.graph.Denotes entry.number entry.value

/-- An entry is added in front of further ones: its key is noted first, then its value. -/
theorem ComposedEntries.cons {graph : YamlGraph} {next last : YamlComposition} {key : String}
    {number : Nat} {value : Value} {entries : List DenotedEntry} {between rest : List YamlToken}
    (others : ComposedEntries next.graph last entries rest)
    (first : Composed (graph.push (.scalar YamlTag.text (codePoints key.toList))) next number value
      between) :
    ComposedEntries graph last (⟨graph.size, key, number, value⟩ :: entries) rest := by
  have pushed := graph.grows_push (.scalar YamlTag.text (codePoints key.toList))
  have behindKey := first.grows.trans others.grows
  have keyNode := behindKey.keeps 0 _ _ (Nat.zero_le _) (graph.node?_push _)
  have size_le := (pushed.trans first.grows).size_le
  exact {
    yields := others.yields
    grows := pushed.trans behindKey
    inner := List.forall_mem_cons.mpr ⟨⟨Nat.le_refl _, pushed.size_le.trans first.inner⟩,
      fun entry member => (others.inner entry member).imp size_le.trans size_le.trans⟩
    keys := List.forall_mem_cons.mpr ⟨keyNode, others.keys⟩
    each := List.forall_mem_cons.mpr
      ⟨first.denotes.of_keeps (others.grows.keeps _), others.each⟩ }

def ComposesItem (value : Value) : Prop :=
  ∀ {state : YamlComposition} {rest : List YamlToken} {bound : Nat},
    Yields state.scan (valueTokens value ++ rest) →
      2 * (valueTokens value).length + 2 ≤ bound →
      ∃ number next, (node bound .block).run state = .ok (number, next) ∧
        Composed state.graph next number value rest

/-- The key of an entry is composed as one node, in front of its value and the other entries. -/
theorem blockEntries_key {key : List Char} (isKey : IsKey key) (bound : Nat)
    (yields : Yields state.scan (keyTokens false key ++ token :: tokens))
    (apart : token ∉ [YamlToken.key, .value, .blockEnd]) :
    ∃ scan, (blockEntries (bound + 2)).run state =
        (do
          let value ← node (bound + 1) .entry
          return (state.graph.size, value) :: (← blockEntries (bound + 1)) : Composing _).run
            { state with
              scan := scan
              graph := state.graph.push (.scalar YamlTag.text (codePoints key)) } ∧
      Yields scan (token :: tokens) := by
  have noFeed : key.getLast? ≠ some '\n' := fun isFeed =>
    absurd (isKey.letter_spec (List.mem_of_getLast? isFeed)).1.1 (by decide)
  have tag_eq : scalarTag none (codePoints key) true = YamlTag.text := by
    rw [scalarTag_plain noFeed, isKey.isText]
    rfl
  have notAside : YamlToken.scalar (codePoints key) true ∉ [YamlToken.key, .value, .blockEnd] := by
    simp
  obtain ⟨atKey, isEntry, behindMark⟩ := takeIf_run yields
  obtain ⟨looked, isNode, atNode⟩ := @unlessAt_run { state with scan := atKey } _ _ _
    (node (bound + 1) .entry) behindMark notAside
  obtain ⟨behindKey, keyNode, behind⟩ := @node_scalar { state with scan := looked } _ _ _ bound
    .entry atNode
  rw [tag_eq] at keyNode
  obtain ⟨atValue, hasValue, behindColon⟩ := @takeIf_run { state with
    scan := behindKey
    graph := state.graph.push (.scalar YamlTag.text (codePoints key)) } _ _ behind
  obtain ⟨ahead, isValue, reads⟩ := @unlessAt_run { state with
    scan := atValue
    graph := state.graph.push (.scalar YamlTag.text (codePoints key)) } _ _ _
    (node (bound + 1) .entry) behindColon apart
  refine ⟨ahead, ?_, reads⟩
  rw [blockEntries, run_bind_ok isEntry, if_pos rfl, run_bind_ok (isNode.trans keyNode),
    run_bind_ok hasValue, if_pos rfl, StateT.run_bind, isValue]
  rfl

theorem head?_entryTokens (named : List (String × Value)) (rest : List YamlToken) :
    (entryTokens (Value.namedEntries named) ++ .blockEnd :: rest).head? ≠ some .blockEntry := by
  cases named with
  | nil => simp [entryTokens]
  | cons entry named => simp [entryTokens, keyTokens, Value.namedEntries]

theorem blockEntries_run {named : List (String × Value)}
    (keys : ∀ entry ∈ named, IsKey entry.1.toList)
    (begins : ∀ entry ∈ named, ∃ token others, valueTokens entry.2 = token :: others ∧
      token ∉ [YamlToken.key, .value, .blockEnd])
    (each : ∀ entry ∈ named, ComposesEntry entry.2) {bound : Nat} {rest : List YamlToken}
    (yields : Yields state.scan (entryTokens (Value.namedEntries named) ++ .blockEnd :: rest))
    (enough : 2 * (entryTokens (Value.namedEntries named)).length + 3 ≤ bound) :
    ∃ entries next, (blockEntries bound).run state =
        .ok (entries.map fun entry => (entry.keyNumber, entry.number), next) ∧
      entries.map (fun entry => (entry.key, entry.value)) = named ∧
      ComposedEntries state.graph next entries rest := by
  obtain ⟨bound, rfl⟩ : ∃ less, bound = less + 1 := ⟨bound - 1, by omega⟩
  induction named generalizing state bound with
  | nil =>
      have closed : Yields state.scan (.blockEnd :: rest) := yields
      have noKey : (YamlToken.blockEnd :: rest).head? ≠ some .key := by simp
      obtain ⟨scan, ends, ending⟩ := takeIf_run_other closed noKey
      obtain ⟨last, expected, behind⟩ := @expect_run { state with scan := scan } _ _ ending
      refine ⟨[], { state with scan := last }, ?_, rfl, behind, .refl _, by simp, by simp, by simp⟩
      rw [blockEntries, run_bind_ok ends, if_neg Bool.false_ne_true, run_bind_ok expected]
      rfl
  | cons entry named ih =>
      obtain ⟨key, value⟩ := entry
      have isKey := keys (key, value) (.head _)
      obtain ⟨token, others, value_eq, notAside⟩ := begins (key, value) (.head _)
      have composes : ComposesEntry value := each (key, value) (.head _)
      simp only [Value.namedEntries_cons, entryTokens, Value.toText, List.append_assoc,
        List.length_append] at yields enough
      simp only [keyTokens, Bool.false_eq_true, if_false, List.length_append, List.length_cons,
        List.length_nil] at enough
      obtain ⟨bound, rfl⟩ : ∃ less, bound = less + 1 := ⟨bound - 1, by omega⟩
      simp only at value_eq
      rw [value_eq, List.cons_append] at yields
      -- The key is noted before its value, and both before the further entries.
      obtain ⟨scan, run, atValue⟩ := blockEntries_key isKey bound yields notAside
      rw [← List.cons_append, ← value_eq] at atValue
      obtain ⟨number, next, valueRun, composed⟩ := @composes { state with
        scan := scan
        graph := state.graph.push (.scalar YamlTag.text (codePoints key.toList)) } _ (bound + 1)
        atValue (head?_entryTokens named rest) (by omega)
      obtain ⟨entries, last, entriesRun, named_eq, others⟩ := ih
        (fun entry member => keys entry (.tail _ member))
        (fun entry member => begins entry (.tail _ member))
        (fun entry member => each entry (.tail _ member)) composed.yields bound (by omega)
      refine ⟨⟨state.graph.size, key, number, value⟩ :: entries, last, ?_, ?_, ?_⟩
      · rw [run, run_bind_ok valueRun, run_bind_ok entriesRun]
        rfl
      · rw [List.map_cons, named_eq]
      · exact others.cons composed

/-- The items of a sequence have been added to a graph. -/
structure ComposedItems (graph : YamlGraph) (next : YamlComposition) (parts : List (Nat × Value))
    (rest : List YamlToken) : Prop where
  yields : Yields next.scan rest
  grows : graph.Grows next.graph
  inner : ∀ part ∈ parts, graph.size ≤ part.1
  each : ∀ part ∈ parts, next.graph.Denotes part.1 part.2

/-- An item is added in front of further ones. -/
theorem ComposedItems.cons {graph : YamlGraph} {next last : YamlComposition} {number : Nat}
    {value : Value} {parts : List (Nat × Value)} {between rest : List YamlToken}
    (others : ComposedItems next.graph last parts rest)
    (first : Composed graph next number value between) :
    ComposedItems graph last ((number, value) :: parts) rest where
  yields := others.yields
  grows := first.grows.trans others.grows
  inner := List.forall_mem_cons.mpr ⟨first.inner,
    fun part member => first.grows.size_le.trans (others.inner part member)⟩
  each := List.forall_mem_cons.mpr
    ⟨first.denotes.of_keeps (others.grows.keeps _), others.each⟩

section Completion

variable {graph : YamlGraph} {node : YamlNode} {next : YamlComposition} {rest : List YamlToken}

theorem ComposedEntries.complete {entries : List DenotedEntry}
    (composed : ComposedEntries (graph.push node) next entries rest)
    (distinct : (entries.map DenotedEntry.key).Nodup) :
    Composed graph
      { next with
        graph := next.graph.replace graph.size (.mapping YamlTag.mapping
          (entries.map fun entry => (entry.keyNumber, entry.number))) } graph.size
      (.record (Value.namedEntries (entries.map fun entry => (entry.key, entry.value)))) rest := by
  have behind {number : Nat} (inner : (graph.push node).size ≤ number) : graph.size < number := by
    rwa [YamlGraph.size_push] at inner
  exact {
    yields := composed.yields
    grows := YamlGraph.grows_replace composed.grows
    inner := Nat.le_refl _
    denotes := .record (YamlGraph.node?_replace composed.grows) distinct
      (fun entry member => (composed.inner entry member).imp behind behind)
      (fun entry member => YamlGraph.keeps_replace (behind (composed.inner entry member).1) _ _
        (Nat.le_refl _) (composed.keys entry member))
      fun entry member => (composed.each entry member).of_keeps
        (YamlGraph.keeps_replace (behind (composed.inner entry member).2)) }

theorem ComposedItems.complete {parts : List (Nat × Value)}
    (composed : ComposedItems (graph.push node) next parts rest) :
    Composed graph
      { next with
        graph := next.graph.replace graph.size
          (.sequence YamlTag.sequence (parts.map Prod.fst)) } graph.size
      (.list (parts.map Prod.snd)) rest := by
  have behind {number : Nat} (inner : (graph.push node).size ≤ number) : graph.size < number := by
    rwa [YamlGraph.size_push] at inner
  exact {
    yields := composed.yields
    grows := YamlGraph.grows_replace composed.grows
    inner := Nat.le_refl _
    denotes := .list (YamlGraph.node?_replace composed.grows)
      (fun part member => behind (composed.inner part member))
      fun part member => (composed.each part member).of_keeps
        (YamlGraph.keeps_replace (behind (composed.inner part member))) }

end Completion

theorem mappingOf_run {entries : Composing (List (Nat × Nat))} {numbers : List (Nat × Nat)}
    {next : YamlComposition} (run : entries.run
      { state with graph := state.graph.push (.mapping YamlTag.mapping []) } =
        .ok (numbers, next)) :
    (mappingOf none none entries).run state = .ok (state.graph.size, { next with
      graph := next.graph.replace state.graph.size (.mapping YamlTag.mapping numbers) }) := by
  have noted : (addNode (.mapping YamlTag.mapping [])).run state = .ok (state.graph.size,
      { state with graph := state.graph.push (.mapping YamlTag.mapping []) }) := rfl
  rw [mappingOf]
  dsimp only [collectionTag, setAnchor]
  rw [run_bind_ok noted, pure_bind, run_bind_ok run]
  rfl

theorem sequenceOf_run {items : Composing (List Nat)} {numbers : List Nat}
    {next : YamlComposition} (run : items.run
      { state with graph := state.graph.push (.sequence YamlTag.sequence []) } =
        .ok (numbers, next)) :
    (sequenceOf none none items).run state = .ok (state.graph.size, { next with
      graph := next.graph.replace state.graph.size (.sequence YamlTag.sequence numbers) }) := by
  have noted : (addNode (.sequence YamlTag.sequence [])).run state = .ok (state.graph.size,
      { state with graph := state.graph.push (.sequence YamlTag.sequence []) }) := rfl
  rw [sequenceOf]
  dsimp only [collectionTag, setAnchor]
  rw [run_bind_ok noted, pure_bind, run_bind_ok run]
  rfl

/-- A record is composed as a mapping, outside brackets. -/
theorem node_record {named : List (String × Value)} (isRecord : Value.IsRecord named)
    (begins : ∀ entry ∈ named, ∃ token others, valueTokens entry.2 = token :: others ∧
      token ∉ [YamlToken.key, .value, .blockEnd])
    (each : ∀ entry ∈ named, ComposesEntry entry.2) {bound : Nat} {setting : Setting}
    (outside : setting ≠ .flow) {rest : List YamlToken}
    (yields : Yields state.scan (valueTokens (.record (Value.namedEntries named)) ++ rest))
    (enough : 2 * (valueTokens (.record (Value.namedEntries named))).length + 2 ≤ bound) :
    ∃ number next, (node bound setting).run state = .ok (number, next) ∧
      Composed state.graph next number (.record (Value.namedEntries named)) rest := by
  obtain ⟨bound, rfl⟩ : ∃ less, bound = less + 1 := ⟨bound - 1, by omega⟩
  simp only [valueTokens, List.cons_append, List.append_assoc, List.nil_append, List.length_cons,
    List.length_append, List.length_nil] at yields enough
  obtain ⟨scan, run, reads⟩ := peek_run yields
  obtain ⟨taken, behind⟩ := advance_run reads
  have bare := takeProperties_run reads trivial
  obtain ⟨entries, next, entriesRun, named_eq, composed⟩ := @blockEntries_run { state with
    scan := scan.take
    graph := state.graph.push (.mapping YamlTag.mapping []) } _ isRecord.keys begins each bound rest
    behind (by omega)
  have mappingRun := @mappingOf_run { state with scan := scan.take } _ _ _ entriesRun
  refine ⟨_, _, ?_, named_eq ▸ composed.complete ?_⟩
  · rw [node, run_bind_ok run]
    dsimp only [List.head?_cons]
    rw [run_bind_ok bare]
    dsimp only
    rw [run_bind_ok (peek_known reads)]
    dsimp only [List.head?_cons, checkNewAnchor]
    rw [pure_bind, if_neg outside, run_bind_ok taken]
    exact mappingRun
  · have distinct := isRecord.distinct
    rw [← named_eq, List.map_map] at distinct
    exact distinct

theorem plainItems_run {values : List Value}
    (begins : ∀ value ∈ values, ∃ others, valueTokens value = .blockMappingStart :: others)
    (each : ∀ value ∈ values, ComposesItem value) {bound : Nat} {rest : List YamlToken}
    (yields : Yields state.scan (itemTokens values ++ rest)) (ends : rest.head? ≠ some .blockEntry)
    (enough : 2 * (itemTokens values).length + 1 ≤ bound) :
    ∃ parts next, (plainItems bound).run state = .ok (parts.map Prod.fst, next) ∧
      parts.map Prod.snd = values ∧ ComposedItems state.graph next parts rest := by
  obtain ⟨bound, rfl⟩ : ∃ less, bound = less + 1 := ⟨bound - 1, by omega⟩
  induction values generalizing state bound with
  | nil =>
      obtain ⟨scan, ended, behind⟩ := takeIf_run_other yields ends
      refine ⟨[], { state with scan := scan }, ?_, rfl, behind, .refl _, by simp, by simp⟩
      rw [plainItems, run_bind_ok ended]
      rfl
  | cons value values ih =>
      obtain ⟨others, value_eq⟩ := begins value (.head _)
      rw [itemTokens, List.length_cons, List.length_append] at enough
      rw [itemTokens, List.cons_append, List.append_assoc] at yields
      have filled : 0 < (valueTokens value).length := by
        rw [value_eq]
        exact Nat.succ_pos _
      obtain ⟨bound, rfl⟩ : ∃ less, bound = less + 1 := ⟨bound - 1, by omega⟩
      obtain ⟨scan, isItem, atValue⟩ := takeIf_run yields
      have notLeftOut : YamlToken.blockMappingStart ∉
          [YamlToken.blockEntry, .key, .value, .blockEnd] := by simp
      rw [value_eq, List.cons_append] at atValue
      obtain ⟨ahead, isNode, reads⟩ := @unlessAt_run { state with scan := scan } _ _ _
        (node (bound + 1) .block) atValue notLeftOut
      rw [← List.cons_append, ← value_eq] at reads
      obtain ⟨number, next, valueRun, composed⟩ := @each value (.head _) { state with
        scan := ahead } _ (bound + 1) reads (by omega)
      obtain ⟨parts, last, partsRun, values_eq, behind⟩ := ih
        (fun other member => begins other (.tail _ member))
        (fun other member => each other (.tail _ member)) composed.yields bound (by omega)
      refine ⟨(number, value) :: parts, last, ?_, ?_, ?_⟩
      · rw [plainItems, run_bind_ok isItem, if_pos rfl, run_bind_ok (isNode.trans valueRun),
          run_bind_ok partsRun]
        rfl
      · rw [List.map_cons, values_eq]
      · exact behind.cons composed

/-- A list behind a key is composed as a sequence. -/
theorem composesEntry_list {values : List Value} (filled : values ≠ [])
    (begins : ∀ value ∈ values, ∃ others, valueTokens value = .blockMappingStart :: others)
    (each : ∀ value ∈ values, ComposesItem value) : ComposesEntry (.list values) := by
  intro state rest bound yields ends enough
  obtain ⟨bound, rfl⟩ : ∃ less, bound = less + 1 := ⟨bound - 1, by omega⟩
  rw [valueTokens] at yields enough
  obtain ⟨others, tokens_eq⟩ : ∃ others, itemTokens values = .blockEntry :: others := by
    obtain ⟨value, values, rfl⟩ := List.exists_cons_of_ne_nil filled
    exact ⟨_, rfl⟩
  rw [tokens_eq, List.cons_append] at yields
  obtain ⟨scan, run, reads⟩ := peek_run yields
  have bare := takeProperties_run reads trivial
  have listed := reads.yields
  rw [← List.cons_append, ← tokens_eq] at listed
  obtain ⟨parts, next, partsRun, values_eq, composed⟩ := @plainItems_run { state with
    scan := scan
    graph := state.graph.push (.sequence YamlTag.sequence []) } _ begins each bound rest listed ends
    (by omega)
  have sequenceRun := @sequenceOf_run { state with scan := scan } _ _ _ partsRun
  refine ⟨_, _, ?_, values_eq ▸ composed.complete⟩
  rw [node, run_bind_ok run]
  dsimp only [List.head?_cons]
  rw [run_bind_ok bare]
  dsimp only
  rw [run_bind_ok (peek_known reads)]
  dsimp only [List.head?_cons, checkNewAnchor]
  rw [pure_bind, if_pos rfl]
  exact sequenceRun

theorem exists_valueTokens {value : Value} {indent : Nat} (kept : value.IsKeptAt indent) :
    ∃ token others, valueTokens value = token :: others ∧
      token ∉ [YamlToken.key, .value, .blockEnd] := by
  cases kept with
  | text => exact ⟨_, _, rfl, by simp⟩
  | int => exact ⟨_, _, rfl, by simp⟩
  | list filled =>
      obtain ⟨entries, records, rfl⟩ := List.exists_cons_of_ne_nil filled
      exact ⟨_, _, rfl, by simp⟩
  | record => exact ⟨_, _, rfl, by simp⟩

/-- What is written behind a key is composed. -/
theorem composesEntry {value : Value} {indent : Nat} (kept : value.IsKeptAt indent) :
    ComposesEntry value := by
  induction kept with
  | text => exact composesEntry_text _
  | int small => exact composesEntry_int small
  | list filled eachRecord each ih =>
      refine composesEntry_list (by simpa using filled) ?_ ?_
      · intro value member
        obtain ⟨entries, -, rfl⟩ := List.mem_map.mp member
        exact ⟨_, rfl⟩
      · intro value member
        obtain ⟨entries, inside, rfl⟩ := List.mem_map.mp member
        intro state rest bound yields enough
        exact node_record (eachRecord entries inside)
          (fun entry among => exists_valueTokens (each entries inside entry among))
          (ih entries inside) (by decide) yields enough
  | record isRecord each ih =>
      intro state rest bound yields _ enough
      exact node_record isRecord (fun entry member => exists_valueTokens (each entry member)) ih
        (by decide) yields enough

/-! ### Documents -/

theorem atDirective_run (yields : Yields state.scan (token :: tokens))
    (noDirective : ∀ directive, token ≠ .directive directive) :
    ∃ scan, atDirective.run state = .ok (false, { state with scan := scan }) ∧
      Yields scan (token :: tokens) := by
  obtain ⟨scan, run, reads⟩ := peek_run yields
  refine ⟨scan, ?_, reads.yields⟩
  rw [atDirective, run_bind_ok run]
  cases token <;> first | rfl | exact absurd rfl (noDirective _)

theorem atEnd_run (yields : Yields state.scan tokens) :
    ∃ scan, atEnd.run state = .ok (tokens.isEmpty, { state with scan := scan }) ∧
      Yields scan tokens := by
  obtain ⟨scan, run, reads⟩ := peek_run yields
  refine ⟨scan, ?_, reads.yields⟩
  rw [atEnd, run_bind_ok run]
  cases tokens <;> rfl

/-- A text without markers holds one document if a node takes all its tokens. -/
theorem single_run (yields : Yields state.scan (token :: tokens))
    (noDirective : ∀ directive, token ≠ .directive directive) (noStart : token ≠ .documentStart)
    {bound : Nat} {Holds : Nat → YamlGraph → Prop}
    (composed : ∀ scan, Yields scan (token :: tokens) →
      ∃ root next, (node (bound + 1) .block).run { state with scan := scan } = .ok (root, next) ∧
        Yields next.scan [] ∧ Holds root next.graph) :
    ∃ root next, (single (bound + 1)).run state = .ok (some root, next) ∧
      Holds root next.graph := by
  obtain ⟨first, notDirective, behindFirst⟩ := atDirective_run yields noDirective
  obtain ⟨second, notStart, behindSecond⟩ := @atAny_run { state with scan := first } _
    [.documentStart] behindFirst
  obtain ⟨third, notEnd, behindThird⟩ := @atEnd_run { state with scan := second } _
    behindSecond.yields
  have isOther : (token :: tokens).head?.any [YamlToken.documentStart].contains = false := by
    simpa using noStart
  rw [isOther] at notStart
  obtain ⟨root, next, rootRun, behindRoot, holds⟩ := composed third behindThird
  have noToken : ([] : List YamlToken).head? ≠ some .documentEnd := by simp
  obtain ⟨fourth, noMarker, behindMarker⟩ := takeIf_run_other behindRoot noToken
  obtain ⟨last, atLast, -⟩ := @atEnd_run { next with scan := fourth } _ behindMarker
  have markers : (skipDocumentEnds (bound + 1)).run next =
      .ok ((), { next with scan := fourth }) := by
    rw [skipDocumentEnds, run_bind_ok noMarker]
    rfl
  have nothing : (refuseDocument (bound + 1)).run { next with scan := fourth } =
      .ok ((), { next with scan := last }) := by
    rw [refuseDocument, run_bind_ok atLast]
    rfl
  refine ⟨root, { next with scan := last }, ?_, holds⟩
  rw [single, run_bind_ok notDirective, run_bind_ok notStart, run_bind_ok notEnd]
  dsimp only [List.isEmpty_cons, Bool.or_self]
  rw [if_neg Bool.false_ne_true, if_neg (by decide), run_bind_ok rootRun, run_bind_ok markers,
    run_bind_ok nothing]
  rfl

/-- The document of a record is composed into a graph whose root denotes the record. -/
theorem readYamlDocument_document {entries : List (String × Value)}
    (isRecord : Value.IsRecord entries) (each : ∀ entry ∈ entries, entry.2.IsKeptAt 0) :
    ∃ graph root, readYamlDocument (document (.record (Value.namedEntries entries))) =
        .ok (some (graph, root)) ∧
      graph.Denotes root (.record (Value.namedEntries entries)) := by
  obtain ⟨scanned, yields, enough⟩ := scanYaml_document isRecord each
  generalize document (.record (Value.namedEntries entries)) = text at scanned yields enough ⊢
  let state : YamlComposition :=
    { scan := .start text, handles := YamlTag.standardHandles, anchors := [], graph := .empty }
  rw [valueTokens] at yields
  have composed (scan : YamlScan) (yields : Yields scan (.blockMappingStart ::
      (entryTokens (Value.namedEntries entries) ++ [.blockEnd]))) :
      ∃ root next, (node (4 * text.length + 15 + 1) .block).run { state with scan := scan } =
        .ok (root, next) ∧ Yields next.scan [] ∧
          next.graph.Denotes root (.record (Value.namedEntries entries)) := by
    rw [← valueTokens, ← List.append_nil (valueTokens _)] at yields
    obtain ⟨root, next, run, composed⟩ := @node_record { state with scan := scan } _ isRecord
      (fun entry member => exists_valueTokens (each entry member))
      (fun entry member => composesEntry (each entry member)) (4 * text.length + 15 + 1) .block
      (by decide) [] yields (by omega)
    exact ⟨root, next, run, composed.yields, composed.denotes⟩
  obtain ⟨root, next, run, denotes⟩ := @single_run state _ _ yields (by simp) (by simp) _
    (fun root graph => graph.Denotes root (.record (Value.namedEntries entries))) composed
  refine ⟨next.graph, root, ?_, denotes⟩
  rw [readYamlDocument, scanned]
  show (single (4 * text.length + 15 + 1)).run state >>= _ = _
  rw [run]
  rfl

end YamlDocument

end RubySyntax
