import Mathlib.Data.Fintype.Card
import RubySyntax.Proofs.HeldValues
import RubySyntax.Proofs.YamlNodeReading
import RubySyntax.YamlConstruction

/-!
# Constructing the value of a written YAML document

A node is given its part when it is first met, and the containers are filled in the
order in which they were met.  The invariant says what the parts and the filled
containers stand for.  No part changes later, and there are no more containers than
nodes, so in the end every container is filled.
-/

namespace RubySyntax

/-! ### Mappings without merge keys -/

namespace YamlGraph

/-- A mapping whose keys are texts takes over nothing. -/
theorem flatten_texts {graph : YamlGraph} {number bound : Nat} (enough : 0 < bound)
    (keys : ∀ entry ∈ graph.entries number, graph.tag entry.1 = YamlTag.text) :
    graph.flatten bound number = .ok graph := by
  obtain ⟨bound, rfl⟩ := Nat.exists_eq_succ_of_ne_zero (Nat.ne_of_gt enough)
  have noMerge : graph.takeMerge? (graph.entries number) = none := by
    have every : ∀ entry ∈ graph.entries number, (graph.tag entry.1 != YamlTag.merge) = true := by
      intro entry member
      rw [keys entry member]
      decide
    rw [takeMerge?, List.span_eq_takeWhile_dropWhile, List.dropWhile_eq_nil_iff.mpr every]
  have retag (names : List Nat) (texts : ∀ name ∈ names, graph.tag name = YamlTag.text) :
      names.foldl retagDefaultKey graph = graph := by
    induction names with
    | nil => rfl
    | cons name names ih =>
        have isText := texts name (.head _)
        have same : graph.retagDefaultKey name = graph := by
          rw [retagDefaultKey]
          split
          next node node_eq =>
            have tag_eq : node.tag = YamlTag.text := by
              rw [tag, node_eq] at isText
              exact isText
            rw [tag_eq]
            exact if_neg (by decide)
          next => rfl
        rw [List.foldl_cons, same]
        exact ih fun other member => texts other (.tail _ member)
  rw [flatten, mergeInto, noMerge]
  dsimp only
  rw [finishMerge, retag _ (by simpa using keys)]
  rfl

end YamlGraph

namespace YamlConstruction

open YamlFlowScalar
open SharedPart (namedFields putEntry_namedFields)

/-! ### Invariants of the construction -/

/-- The part that stands for a node: texts and integers are plain, and a collection is the
container that comes from it. -/
def StandsFor (state : YamlConstruction) (part : SharedPart) (number : Nat) : YamlNode → Prop
  | .scalar tag content =>
    (tag = YamlTag.text ∧ part = .plain (.ofCodePoints content)) ∨
      (tag = YamlTag.ofPlainKind .int ∧
        ∃ value, YamlScalarValue.readInt content = .ok (.int value) ∧ part = .plain (.int value))
  | .sequence _ _ =>
    ∃ place, part = .container place ∧ state.origins[place]? = some (.list, number)
  | .mapping _ _ =>
    ∃ place, part = .container place ∧ state.origins[place]? = some (.record, number)

/-- A container holds the parts that stand for the parts of its node. -/
def IsFilled (graph : YamlGraph) (state : YamlConstruction) (place number : Nat) :
    YamlCollectionKind → Prop
  | .list => ∃ items parts, graph.node? number = some (.sequence YamlTag.sequence items) ∧
      state.containers[place]? = some (.list parts) ∧
      List.Forall₂ (fun item part => state.denoted[item]? = some (some part)) items parts
  | .record => ∃ entries fields, graph.node? number = some (.mapping YamlTag.mapping entries) ∧
      state.containers[place]? = some (.record fields) ∧
      List.Forall₂ (fun entry field => state.denoted[entry.1]? = some (some field.1) ∧
        state.denoted[entry.2]? = some (some field.2)) entries fields
  | _ => False

theorem IsFilled.of_same {graph : YamlGraph} {state later : YamlConstruction} {place number : Nat}
    {kind : YamlCollectionKind} (filled : IsFilled graph state place number kind)
    (denoted : ∀ (number : Nat) (part : SharedPart), state.denoted[number]? = some (some part) →
      later.denoted[number]? = some (some part))
    (same : later.containers[place]? = state.containers[place]?) :
    IsFilled graph later place number kind := by
  cases kind with
  | list =>
      obtain ⟨items, parts, node_eq, container, each⟩ := filled
      exact ⟨items, parts, node_eq, same.trans container, each.imp fun _ _ => denoted _ _⟩
  | record =>
      obtain ⟨entries, fields, node_eq, container, each⟩ := filled
      exact ⟨entries, fields, node_eq, same.trans container,
        each.imp fun _ _ both => both.imp (denoted _ _) (denoted _ _)⟩
  | pairs => exact filled
  | set => exact filled

/-- A construction in which all denoted parts stand for their nodes, and the containers up to a
number are filled. -/
structure IsSound (graph : YamlGraph) (state : YamlConstruction) (filled : Nat) : Prop where
  graph_eq : state.graph = graph
  merges : 0 < state.mergeBound
  places : state.denoted.size = graph.size
  paired : state.containers.size = state.origins.size
  within : filled ≤ state.origins.size
  stands : ∀ (number : Nat) (part : SharedPart), state.denoted[number]? = some (some part) →
    ∃ node, graph.node? number = some node ∧ StandsFor state part number node
  comes : ∀ (place : Nat) (kind : YamlCollectionKind) (number : Nat),
    state.origins[place]? = some (kind, number) →
      state.denoted[number]? = some (some (.container place)) ∧
        ∃ value, graph.Denotes number value
  fills : ∀ (place : Nat) (kind : YamlCollectionKind) (number : Nat), place < filled →
    state.origins[place]? = some (kind, number) → IsFilled graph state place number kind

/-- A later construction has all parts and containers of an earlier one. -/
structure Extends (state later : YamlConstruction) : Prop where
  size_le : state.containers.size ≤ later.containers.size
  denoted : ∀ (number : Nat) (part : SharedPart), state.denoted[number]? = some (some part) →
    later.denoted[number]? = some (some part)
  origins : ∀ (place : Nat) (origin : YamlCollectionKind × Nat),
    state.origins[place]? = some origin → later.origins[place]? = some origin
  containers : ∀ place : Nat, place < state.containers.size →
    later.containers[place]? = state.containers[place]?

namespace Extends

variable {state later last : YamlConstruction}

theorem refl (state : YamlConstruction) : Extends state state :=
  ⟨Nat.le_refl _, fun _ _ same => same, fun _ _ same => same, fun _ _ => rfl⟩

theorem trans (first : Extends state later) (second : Extends later last) :
    Extends state last where
  size_le := Nat.le_trans first.size_le second.size_le
  denoted := fun number part same => second.denoted number part (first.denoted number part same)
  origins := fun place origin same => second.origins place origin (first.origins place origin same)
  containers := fun place inside =>
    (second.containers place (Nat.lt_of_lt_of_le inside first.size_le)).trans
      (first.containers place inside)

theorem standsFor (later_extends : Extends state later) {part : SharedPart} {number : Nat}
    {node : YamlNode} (stands : StandsFor state part number node) :
    StandsFor later part number node := by
  cases node with
  | scalar => exact stands
  | sequence =>
      obtain ⟨place, part_eq, origin⟩ := stands
      exact ⟨place, part_eq, later_extends.origins place _ origin⟩
  | mapping =>
      obtain ⟨place, part_eq, origin⟩ := stands
      exact ⟨place, part_eq, later_extends.origins place _ origin⟩

theorem isFilled (later_extends : Extends state later) {graph : YamlGraph} {place number : Nat}
    {kind : YamlCollectionKind} (inside : place < state.containers.size)
    (filled : IsFilled graph state place number kind) :
    IsFilled graph later place number kind :=
  filled.of_same later_extends.denoted (later_extends.containers place inside)

end Extends

/-! ### One part -/

/-- A node has a part in a construction that extends the one before. -/
structure HasPart (graph : YamlGraph) (state later : YamlConstruction) (filled number : Nat)
    (part : SharedPart) : Prop where
  sound : IsSound graph later filled
  extends_ : Extends state later
  known : later.denoted[number]? = some (some part)

variable {graph : YamlGraph} {state : YamlConstruction} {filled number : Nat}

theorem get_run (state : YamlConstruction) :
    (get : Constructing YamlConstruction).run state = .ok (state, state) :=
  rfl

theorem run_lift {α : Type} (result : α) (state : YamlConstruction) :
    (liftM (Except.ok result : Except YamlFault α) : Constructing α).run state =
      .ok (result, state) :=
  rfl

theorem nodeAt_run (sound : IsSound graph state filled) {node : YamlNode}
    (node_eq : graph.node? number = some node) :
    (nodeAt number).run state = .ok (node, state) := by
  have found : state.graph.node? number = some node := sound.graph_eq ▸ node_eq
  rw [nodeAt, run_bind_ok (get_run state)]
  rw [found]
  rfl

def note (state : YamlConstruction) (number : Nat) (part : SharedPart) : YamlConstruction :=
  { state with denoted := state.denoted.setIfInBounds number (some part) }

theorem denoted_note (inside : number < state.denoted.size) (part : SharedPart) (other : Nat) :
    (note state number part).denoted[other]? =
      if number = other then some (some part) else state.denoted[other]? := by
  simp only [note, Array.getElem?_setIfInBounds, inside, if_true]

/-- A node that has its part keeps it. -/
theorem part_known {part : SharedPart} (known : state.denoted[number]? = some (some part)) :
    (YamlConstruction.part number).run state = .ok (part, state) := by
  rw [YamlConstruction.part, run_bind_ok (get_run state), known]
  rfl

/-- A node that has no part yet is given one. -/
theorem part_fresh {part : SharedPart} {later : YamlConstruction}
    (fresh : ∀ part, state.denoted[number]? ≠ some (some part))
    (run : (newPart number).run state = .ok (part, later)) :
    (YamlConstruction.part number).run state = .ok (part, note later number part) := by
  rw [YamlConstruction.part, run_bind_ok (get_run state)]
  split
  next known => exact absurd known (fresh _)
  next =>
    rw [run_bind_ok run]
    rfl

theorem IsSound.number_lt (sound : IsSound graph state filled) {node : YamlNode}
    (node_eq : graph.node? number = some node) : number < state.denoted.size := by
  rw [sound.places]
  exact (Array.getElem?_eq_some_iff.mp node_eq).1

/-- The part of a fresh node replaces no other one. -/
theorem extends_note (inside : number < state.denoted.size)
    (fresh : ∀ part, state.denoted[number]? ≠ some (some part)) (part : SharedPart) :
    Extends state (state.note number part) where
  size_le := Nat.le_refl _
  denoted := by
    intro other found known
    have apart : number ≠ other := by
      rintro rfl
      exact fresh found known
    rw [denoted_note inside, if_neg apart, known]
  origins := fun _ _ same => same
  containers := fun _ _ => rfl

theorem IsSound.note {part : SharedPart} (sound : IsSound graph state filled)
    (fresh : ∀ part, state.denoted[number]? ≠ some (some part)) {node : YamlNode}
    (node_eq : graph.node? number = some node) (stands : StandsFor state part number node) :
    HasPart graph state (state.note number part) filled number part := by
  have inside := sound.number_lt node_eq
  have noted := denoted_note inside part
  have extends_ := extends_note inside fresh part
  refine ⟨?_, extends_, by rw [noted, if_pos rfl]⟩
  exact {
    graph_eq := sound.graph_eq
    merges := sound.merges
    places := (Array.size_setIfInBounds ..).trans sound.places
    paired := sound.paired
    within := sound.within
    stands := by
      intro other found known
      rw [noted] at known
      split at known
      next same =>
        cases known
        exact ⟨node, same ▸ node_eq, same ▸ stands⟩
      next =>
        obtain ⟨node, node_eq, stands⟩ := sound.stands other found known
        exact ⟨node, node_eq, stands⟩
    comes := by
      intro place kind other origin
      obtain ⟨known, denotes⟩ := sound.comes place kind other origin
      exact ⟨extends_.denoted other _ known, denotes⟩
    fills := by
      intro place kind other before origin
      refine extends_.isFilled ?_ (sound.fills place kind other before origin)
      rw [sound.paired]
      exact Nat.lt_of_lt_of_le before sound.within }

/-- A construction with one more container, which is empty. -/
def grow (state : YamlConstruction) (kind : YamlCollectionKind) (number : Nat) :
    YamlConstruction :=
  { state with
    containers := state.containers.push kind.emptyContainer
    origins := state.origins.push (kind, number) }

theorem origins_grow (paired : state.containers.size = state.origins.size)
    (kind : YamlCollectionKind) (place : Nat) : (state.grow kind number).origins[place]? =
      if place = state.containers.size then some (kind, number) else state.origins[place]? := by
  rw [paired]
  exact Array.getElem?_push

/-- A new container replaces no other one. -/
theorem extends_grow (paired : state.containers.size = state.origins.size)
    (kind : YamlCollectionKind) (number : Nat) : Extends state (state.grow kind number) where
  size_le := by
    simp only [grow, Array.size_push]
    exact Nat.le_succ _
  denoted := fun _ _ known => known
  origins := by
    intro place origin same
    have before : place ≠ state.containers.size := by
      rw [paired]
      exact Nat.ne_of_lt (Array.getElem?_eq_some_iff.mp same).1
    rw [origins_grow paired, if_neg before, same]
  containers := fun place before => Array.getElem?_push.trans (if_neg (Nat.ne_of_lt before))

def contain (state : YamlConstruction) (kind : YamlCollectionKind) (number : Nat) :
    YamlConstruction :=
  note (state.grow kind number) number (.container state.containers.size)

theorem IsSound.contain {kind : YamlCollectionKind} {value : Value}
    (sound : IsSound graph state filled) (fresh : ∀ part, state.denoted[number]? ≠ some (some part))
    (denotes : graph.Denotes number value) {node : YamlNode}
    (node_eq : graph.node? number = some node)
    (stands : StandsFor (state.contain kind number) (.container state.containers.size) number
      node) :
    HasPart graph state (state.contain kind number) filled number
      (.container state.containers.size) := by
  have inside := sound.number_lt node_eq
  have noted (other : Nat) : (state.contain kind number).denoted[other]? =
      if number = other then some (some (.container state.containers.size))
      else state.denoted[other]? := denoted_note inside _ other
  have origins_eq (place : Nat) : (state.contain kind number).origins[place]? =
      if place = state.containers.size then some (kind, number) else state.origins[place]? :=
    origins_grow sound.paired kind place
  have extends_ : Extends state (state.contain kind number) :=
    (extends_grow sound.paired kind number).trans
      (@extends_note (state.grow kind number) _ inside fresh _)
  refine ⟨?_, extends_, by rw [noted, if_pos rfl]⟩
  exact {
    graph_eq := sound.graph_eq
    merges := sound.merges
    places := (Array.size_setIfInBounds ..).trans sound.places
    paired := by
      simp only [YamlConstruction.contain, YamlConstruction.note, grow, Array.size_push,
        sound.paired]
    within := by
      simp only [YamlConstruction.contain, YamlConstruction.note, grow, Array.size_push]
      exact Nat.le_succ_of_le sound.within
    stands := by
      intro other found known
      rw [noted] at known
      split at known
      next same =>
        cases known
        exact ⟨node, same ▸ node_eq, same ▸ stands⟩
      next =>
        obtain ⟨node, node_eq, stands⟩ := sound.stands other found known
        exact ⟨node, node_eq, extends_.standsFor stands⟩
    comes := by
      intro place found other origin
      rw [origins_eq] at origin
      split at origin
      next same =>
        cases origin
        exact ⟨by rw [noted, if_pos rfl, same], value, denotes⟩
      next =>
        obtain ⟨known, denotes⟩ := sound.comes place found other origin
        exact ⟨extends_.denoted other _ known, denotes⟩
    fills := by
      intro place found other before origin
      have inside : place < state.origins.size := Nat.lt_of_lt_of_le before sound.within
      rw [← sound.paired] at inside
      rw [origins_eq, if_neg (Nat.ne_of_lt inside)] at origin
      exact extends_.isFilled inside (sound.fills place found other before origin) }

/-! ### Parts of what is read back -/

theorem kind?_tags : YamlTag.kind? YamlTag.text = some "str" ∧
    YamlTag.kind? (YamlTag.ofPlainKind .int) = some "int" ∧
    YamlTag.kind? YamlTag.sequence = some "seq" ∧ YamlTag.kind? YamlTag.mapping = some "map" := by
  decide

/-- A scalar that is read as a value is the value, unless it is a floating-point number. -/
theorem newPart_scalar (sound : IsSound graph state filled) {tag content : List Nat}
    (node_eq : graph.node? number = some (.scalar tag content)) {kind : String}
    (kind_eq : YamlTag.kind? tag = some kind) {read : List Nat → Except YamlFault Value}
    (reader : YamlScalarValue.reader? kind = some read) {value : Value}
    (read_eq : read content = .ok value) (exact : ∀ number, value ≠ .float number) :
    (newPart number).run state = .ok (.plain value, state) := by
  have node := nodeAt_run sound node_eq
  have found : state.graph.scalarContent state.graph.size number = .ok content := by
    have inside : number < state.graph.size := by
      rw [sound.graph_eq]
      exact (Array.getElem?_eq_some_iff.mp node_eq).1
    obtain ⟨size, size_eq⟩ :=
      Nat.exists_eq_succ_of_ne_zero (Nat.ne_of_gt (Nat.zero_lt_of_lt inside))
    rw [size_eq, YamlGraph.scalarContent, sound.graph_eq, node_eq]
  have scalar : (scalarPart kind read number).run state = .ok (.plain value, state) := by
    rw [scalarPart, run_bind_ok (get_run state)]
    dsimp only
    rw [found, run_bind_ok (run_lift content state), run_bind_ok node]
    dsimp only
    rw [read_eq, run_bind_ok (run_lift value state)]
    cases value <;> first | rfl | exact absurd rfl (exact _)
  rw [newPart, run_bind_ok node]
  simp only [YamlNode.tag, kind_eq, reader]
  exact scalar

theorem newPart_collection (sound : IsSound graph state filled) {node : YamlNode}
    (node_eq : graph.node? number = some node) {name : String}
    (kind_eq : YamlTag.kind? node.tag = some name) (noReader : YamlScalarValue.reader? name = none)
    {kind : YamlCollectionKind} (collects : YamlCollectionKind.ofName? name = some kind) :
    (newPart number).run state =
      .ok (.container state.containers.size, state.grow kind number) := by
  rw [newPart, run_bind_ok (nodeAt_run sound node_eq)]
  simp only [kind_eq, noReader, collects]
  rfl

theorem ofCodePoints_ne_float (content : List Nat) (number : Float) :
    Value.ofCodePoints content ≠ .float number := by
  rw [Value.ofCodePoints]
  split <;> simp

theorem part_run (sound : IsSound graph state filled) {value : Value}
    (denotes : graph.Denotes number value) :
    ∃ part later, (YamlConstruction.part number).run state = .ok (part, later) ∧
      HasPart graph state later filled number part := by
  by_cases fresh : ∀ part, state.denoted[number]? ≠ some (some part)
  · cases denotes with
    | text node_eq =>
        have run := newPart_scalar sound node_eq kind?_tags.1 rfl rfl
          (ofCodePoints_ne_float _)
        exact ⟨_, _, part_fresh fresh run, sound.note fresh node_eq (.inl ⟨rfl, rfl⟩)⟩
    | int small node_eq =>
        have read := YamlScalarValue.readInt_toString small
        have run := newPart_scalar sound node_eq kind?_tags.2.1 rfl read (by simp)
        exact ⟨_, _, part_fresh fresh run,
          sound.note fresh node_eq (.inr ⟨rfl, _, read, rfl⟩)⟩
    | list node_eq inner each =>
        have run := newPart_collection sound node_eq kind?_tags.2.2.1 rfl rfl
        exact ⟨_, _, part_fresh fresh run, sound.contain fresh (.list node_eq inner each) node_eq
          ⟨_, rfl, (origins_grow sound.paired _ _).trans (if_pos rfl)⟩⟩
    | record node_eq distinct inner keys each =>
        have run := newPart_collection sound node_eq kind?_tags.2.2.2 rfl rfl
        exact ⟨_, _, part_fresh fresh run, sound.contain fresh
          (.record node_eq distinct inner keys each) node_eq ⟨_, rfl, (origins_grow sound.paired _ _).trans (if_pos rfl)⟩⟩
  · simp only [ne_eq, not_forall, not_not] at fresh
    obtain ⟨part, known⟩ := fresh
    exact ⟨part, state, part_known known, sound, .refl state, known⟩

/-! ### Containers -/

theorem ofCodePoints_codePoints (text : String) :
    Value.ofCodePoints (codePoints text.toList) = .text text := by
  have valid : ((codePoints text.toList).all fun codePoint => codePoint.isValidChar) = true := by
    rw [List.all_eq_true]
    intro codePoint member
    obtain ⟨character, -, rfl⟩ := List.mem_map.mp member
    exact decide_eq_true character.valid
  have back : (codePoints text.toList).map Char.ofNat = text.toList :=
    YamlScalarValue.characters_codePoints text.toList
  rw [Value.ofCodePoints, valid, if_pos rfl, back, String.ofList_toList]

theorem IsSound.text_part (sound : IsSound graph state filled) {part : SharedPart}
    (known : state.denoted[number]? = some (some part)) {text : String}
    (node_eq : graph.node? number = some (.scalar YamlTag.text (codePoints text.toList))) :
    part = .plain (.text text) := by
  obtain ⟨node, found, stands⟩ := sound.stands number part known
  obtain rfl := Option.some.inj (found.symm.trans node_eq)
  have noInt : YamlTag.text ≠ YamlTag.ofPlainKind .int := by decide
  obtain ⟨-, part_eq⟩ := stands.resolve_right fun isInt => noInt isInt.1
  rw [part_eq, ofCodePoints_codePoints]

/-- The parts of several nodes are found one after the other. -/
theorem parts_run {numbers : List Nat} (sound : IsSound graph state filled)
    (denotes : ∀ number ∈ numbers, ∃ value, graph.Denotes number value) :
    ∃ parts later, (numbers.mapM YamlConstruction.part).run state = .ok (parts, later) ∧
      IsSound graph later filled ∧ Extends state later ∧
      List.Forall₂ (fun number part => later.denoted[number]? = some (some part)) numbers
        parts := by
  induction numbers generalizing state with
  | nil => exact ⟨[], state, rfl, sound, .refl state, .nil⟩
  | cons number numbers ih =>
      obtain ⟨value, denotesFirst⟩ := denotes number (.head _)
      obtain ⟨part, later, run, has⟩ := part_run sound denotesFirst
      obtain ⟨parts, last, restRun, soundLast, later_extends, known⟩ := ih has.sound
        fun other member => denotes other (.tail _ member)
      refine ⟨part :: parts, last, ?_, soundLast, has.extends_.trans later_extends,
        .cons (later_extends.denoted _ _ has.known) known⟩
      rw [List.mapM_cons, run_bind_ok run, run_bind_ok restRun]
      rfl

/-- The entries of a mapping are put into a record one after the other. -/
theorem addEntries_run {entries : List DenotedEntry} {fields : List (String × SharedPart)}
    (sound : IsSound graph state filled)
    (distinct : (fields.map Prod.fst ++ entries.map DenotedEntry.key).Nodup)
    (keys : ∀ entry ∈ entries, graph.node? entry.keyNumber =
      some (.scalar YamlTag.text (codePoints entry.key.toList)))
    (denotes : ∀ entry ∈ entries, graph.Denotes entry.number entry.value) :
    ∃ more later, ((entries.map fun entry => (entry.keyNumber, entry.number)).foldlM addEntry
        (namedFields fields)).run state = .ok (namedFields (fields ++ more), later) ∧
      IsSound graph later filled ∧ Extends state later ∧
      List.Forall₂ (fun entry field =>
        later.denoted[entry.keyNumber]? = some (some (.plain (.text field.1))) ∧
          later.denoted[entry.number]? = some (some field.2)) entries more := by
  induction entries generalizing state fields with
  | nil =>
      refine ⟨[], state, ?_, sound, .refl state, .nil⟩
      rw [List.append_nil]
      rfl
  | cons entry entries ih =>
      obtain ⟨key, keyState, keyRun, hasKey⟩ :=
        part_run sound (.text (keys entry (.head _)))
      obtain ⟨part, later, run, has⟩ := part_run hasKey.sound (denotes entry (.head _))
      obtain rfl := hasKey.sound.text_part hasKey.known (keys entry (.head _))
      have fresh : entry.key ∉ fields.map Prod.fst := fun member =>
        (List.nodup_append.mp distinct).2.2 _ member _ (.head _) rfl
      have added : (addEntry (namedFields fields) (entry.keyNumber, entry.number)).run state =
          .ok (namedFields (fields ++ [(entry.key, part)]), later) := by
        rw [addEntry, run_bind_ok keyRun]
        dsimp only
        rw [if_neg (by simp [SharedPart.isKey]), run_bind_ok run, putEntry_namedFields fresh]
        rfl
      obtain ⟨more, last, moreRun, soundLast, later_extends, known⟩ := @ih later
        (fields ++ [(entry.key, part)]) has.sound (by simpa using distinct)
        (fun other member => keys other (.tail _ member))
        fun other member => denotes other (.tail _ member)
      refine ⟨(entry.key, part) :: more, last, ?_, soundLast,
        (hasKey.extends_.trans has.extends_).trans later_extends,
        .cons ⟨later_extends.denoted _ _ (has.extends_.denoted _ _ hasKey.known),
          later_extends.denoted _ _ has.known⟩ known⟩
      rw [List.map_cons, List.foldlM_cons, run_bind_ok added, moreRun, List.append_assoc]
      rfl

/-- A container is filled where its content is put into a construction that has all its parts. -/
def FilledRun (graph : YamlGraph) (state : YamlConstruction) (filled place number : Nat)
    (kind : YamlCollectionKind) : Prop :=
  ∃ container later, (YamlConstruction.filled kind number).run state = .ok (container, later) ∧
    IsSound graph later filled ∧ Extends state later ∧
    ∀ last : YamlConstruction, last.denoted = later.denoted →
      last.containers[place]? = some container → IsFilled graph last place number kind

theorem filled_list (sound : IsSound graph state filled) (place : Nat) {parts : List (Nat × Value)}
    (node_eq : graph.node? number = some (.sequence YamlTag.sequence (parts.map Prod.fst)))
    (each : ∀ part ∈ parts, graph.Denotes part.1 part.2) :
    FilledRun graph state filled place number .list := by
  have denotes : ∀ item ∈ parts.map Prod.fst, ∃ value, graph.Denotes item value := by
    intro item member
    obtain ⟨part, among, rfl⟩ := List.mem_map.mp member
    exact ⟨part.2, each part among⟩
  obtain ⟨found, later, run, soundLater, later_extends, known⟩ := parts_run sound denotes
  refine ⟨.list found, later, ?_, soundLater, later_extends, ?_⟩
  · have itemsRun : (items number).run state = .ok (found, later) := by
      rw [items, run_bind_ok (nodeAt_run sound node_eq)]
      exact run
    rw [YamlConstruction.filled, run_bind_ok itemsRun]
    rfl
  · intro last same container
    exact ⟨_, found, node_eq, container, same ▸ known⟩

/-- The container of a mapping is filled with the parts of its entries. -/
theorem filled_record (sound : IsSound graph state filled) (place : Nat)
    {listed : List DenotedEntry} (node_eq : graph.node? number = some (.mapping YamlTag.mapping
      (listed.map fun entry => (entry.keyNumber, entry.number))))
    (distinct : (listed.map DenotedEntry.key).Nodup)
    (keys : ∀ entry ∈ listed, graph.node? entry.keyNumber =
      some (.scalar YamlTag.text (codePoints entry.key.toList)))
    (each : ∀ entry ∈ listed, graph.Denotes entry.number entry.value) :
    FilledRun graph state filled place number .record := by
  have entries_eq : graph.entries number =
      listed.map fun entry => (entry.keyNumber, entry.number) := by
    rw [YamlGraph.entries, node_eq]
  have texts : ∀ entry ∈ graph.entries number, graph.tag entry.1 = YamlTag.text := by
    rw [entries_eq]
    intro pair member
    obtain ⟨entry, among, rfl⟩ := List.mem_map.mp member
    rw [YamlGraph.tag, keys entry among]
    rfl
  have flat := YamlGraph.flatten_texts sound.merges texts
  obtain ⟨fields, later, run, soundLater, later_extends, known⟩ :=
    @addEntries_run _ _ _ listed [] sound distinct keys each
  refine ⟨.record (namedFields fields), later, ?_, soundLater, later_extends, ?_⟩
  · have entriesRun : (entries number).run state = .ok (namedFields fields, later) := by
      rw [entries, run_bind_ok (nodeAt_run sound node_eq)]
      dsimp only
      rw [run_bind_ok (get_run state), sound.graph_eq, flat, run_bind_ok (run_lift graph state)]
      -- No key is a merge key, so the graph is put back as it was.
      have same : { state with graph := graph } = state := by rw [← sound.graph_eq]
      have kept : (set { state with graph := graph } : Constructing PUnit).run state =
          .ok (⟨⟩, state) := by
        rw [same]
        rfl
      rw [run_bind_ok kept, entries_eq]
      exact run
    rw [YamlConstruction.filled, run_bind_ok entriesRun]
    rfl
  · intro last same container
    refine ⟨_, namedFields fields, node_eq, container, ?_⟩
    rw [namedFields, List.forall₂_map_left_iff, List.forall₂_map_right_iff, same]
    exact known

/-- The container of a collection is filled with the parts of its parts. -/
theorem filled_run (sound : IsSound graph state filled) {place : Nat} {kind : YamlCollectionKind}
    (origin : state.origins[place]? = some (kind, number)) :
    FilledRun graph state filled place number kind := by
  obtain ⟨known, value, denotes⟩ := sound.comes place kind number origin
  obtain ⟨node, node_eq, stands⟩ := sound.stands number _ known
  cases denotes with
  | text found =>
      obtain rfl := Option.some.inj (node_eq.symm.trans found)
      exact absurd stands (by simp [StandsFor])
  | int small found =>
      obtain rfl := Option.some.inj (node_eq.symm.trans found)
      exact absurd stands (by simp [StandsFor])
  | list found inner each =>
      obtain rfl := Option.some.inj (node_eq.symm.trans found)
      obtain ⟨_, ⟨⟩, isList⟩ := stands
      obtain ⟨rfl, -⟩ := Prod.mk.inj (Option.some.inj (origin.symm.trans isList))
      exact filled_list sound place node_eq each
  | record found distinct inner keys each =>
      obtain rfl := Option.some.inj (node_eq.symm.trans found)
      obtain ⟨_, ⟨⟩, isRecord⟩ := stands
      obtain ⟨rfl, -⟩ := Prod.mk.inj (Option.some.inj (origin.symm.trans isRecord))
      exact filled_record sound place node_eq distinct keys each

def fill (state : YamlConstruction) (place : Nat) (container : SharedContainer) :
    YamlConstruction :=
  { state with containers := state.containers.setIfInBounds place container }

theorem IsSound.fill {place : Nat} {kind : YamlCollectionKind} {container : SharedContainer}
    (sound : IsSound graph state place) (origin : state.origins[place]? = some (kind, number))
    (isFilled : IsFilled graph (state.fill place container) place number kind) :
    IsSound graph (state.fill place container) (place + 1) where
  graph_eq := sound.graph_eq
  merges := sound.merges
  places := sound.places
  paired := (Array.size_setIfInBounds ..).trans sound.paired
  within := (Array.getElem?_eq_some_iff.mp origin).1
  stands := sound.stands
  comes := sound.comes
  fills := by
    intro other found otherNumber before otherOrigin
    rcases Nat.lt_succ_iff_lt_or_eq.mp before with earlier | rfl
    · refine (sound.fills other found otherNumber earlier otherOrigin).of_same
        (fun _ _ known => known) ?_
      exact Array.getElem?_setIfInBounds_ne (Nat.ne_of_gt earlier)
    · cases origin.symm.trans otherOrigin
      exact isFilled

/-- There are no more containers than nodes. -/
theorem IsSound.origins_le (sound : IsSound graph state filled) :
    state.origins.size ≤ graph.size := by
  have comes (place : Fin state.origins.size) :=
    (sound.comes place _ _ (Array.getElem?_eq_getElem place.isLt)).1
  let origin (place : Fin state.origins.size) : Fin graph.size :=
    ⟨state.origins[place].2, sound.places ▸ (Array.getElem?_eq_some_iff.mp (comes place)).1⟩
  -- The node of a container has this container as its part, so no other one comes from it.
  have injective : Function.Injective origin := by
    intro place other same
    have number_eq : state.origins[place].2 = state.origins[other].2 := Fin.mk.inj same
    have place_eq := (comes place).symm.trans (number_eq ▸ comes other)
    simp only [Option.some.injEq, SharedPart.container.injEq] at place_eq
    exact Fin.ext place_eq
  simpa using Fintype.card_le_of_injective origin injective

/-- All containers are filled in the end. -/
theorem fillFrom_run {bound place : Nat} (enough : graph.size < bound + place)
    (sound : IsSound graph state place) :
    ∃ later, (fillFrom bound place).run state = .ok ((), later) ∧
      IsSound graph later later.origins.size ∧
      ∀ (number : Nat) (part : SharedPart), state.denoted[number]? = some (some part) →
        later.denoted[number]? = some (some part) := by
  induction bound generalizing state place with
  | zero =>
      -- The place is at most the number of containers, so the bound is not used up before.
      have few := sound.origins_le
      have within := sound.within
      omega
  | succ bound ih =>
      cases origin_eq : state.origins[place]? with
      | none =>
          have last : place = state.origins.size :=
            Nat.le_antisymm sound.within (Array.getElem?_eq_none_iff.mp origin_eq)
          refine ⟨state, ?_, last ▸ sound, fun _ _ known => known⟩
          rw [fillFrom, run_bind_ok (get_run state), origin_eq]
          rfl
      | some origin =>
          obtain ⟨kind, number⟩ := origin
          obtain ⟨container, later, run, soundLater, later_extends, isFilled⟩ :=
            filled_run sound origin_eq
          have originLater := later_extends.origins place _ origin_eq
          have inside : place < later.containers.size := by
            rw [soundLater.paired]
            exact (Array.getElem?_eq_some_iff.mp originLater).1
          have held : (later.fill place container).containers[place]? = some container :=
            (Array.getElem?_setIfInBounds_self ..).trans (if_pos inside)
          obtain ⟨last, lastRun, soundLast, kept⟩ := ih (by omega)
            (soundLater.fill originLater (isFilled _ rfl held))
          refine ⟨last, ?_, soundLast, fun other part known =>
            kept other part (later_extends.denoted other part known)⟩
          rw [fillFrom, run_bind_ok (get_run state), origin_eq]
          dsimp only
          rw [run_bind_ok run]
          exact lastRun

/-! ### The value -/

/-- Where all containers are filled, the part of a node holds what the node denotes. -/
theorem IsSound.holds (sound : IsSound graph state state.origins.size) {value : Value}
    (denotes : graph.Denotes number value) {part : SharedPart}
    (known : state.denoted[number]? = some (some part)) (root : SharedPart) :
    SharedValue.Holds ⟨state.containers, root⟩ part value := by
  induction denotes generalizing part with
  | text node_eq =>
      rw [sound.text_part known node_eq]
      exact .text _
  | int small node_eq =>
      obtain ⟨node, found, stands⟩ := sound.stands _ part known
      obtain rfl := Option.some.inj (found.symm.trans node_eq)
      have noText : YamlTag.ofPlainKind .int ≠ YamlTag.text := by decide
      obtain ⟨-, value, read, rfl⟩ := stands.resolve_left fun isText => noText isText.1
      cases read.symm.trans (YamlScalarValue.readInt_toString small)
      exact .int _
  | list node_eq inner each ih =>
      obtain ⟨node, found, stands⟩ := sound.stands _ part known
      obtain rfl := Option.some.inj (found.symm.trans node_eq)
      obtain ⟨place, rfl, origin⟩ := stands
      obtain ⟨items, parts, items_eq, container, knownEach⟩ :=
        sound.fills place _ _ (Array.getElem?_eq_some_iff.mp origin).1 origin
      cases items_eq.symm.trans node_eq
      rw [List.forall₂_map_left_iff] at knownEach
      refine .of_items container (List.forall₂_map_right_iff.mpr (List.Forall₂.flip ?_))
      exact ((List.forall₂_and_left _ _).mpr ⟨fun item member => @ih item member, knownEach⟩).imp
        fun _ _ both => both.1 both.2
  | record node_eq distinct inner keys each ih =>
      obtain ⟨node, found, stands⟩ := sound.stands _ part known
      obtain rfl := Option.some.inj (found.symm.trans node_eq)
      obtain ⟨place, rfl, origin⟩ := stands
      obtain ⟨entries, fields, entries_eq, container, knownEach⟩ :=
        sound.fills place _ _ (Array.getElem?_eq_some_iff.mp origin).1 origin
      cases entries_eq.symm.trans node_eq
      rw [List.forall₂_map_left_iff] at knownEach
      refine .of_fields container (List.forall₂_map_right_iff.mpr (List.Forall₂.flip ?_))
      refine ((List.forall₂_and_left _ _).mpr ⟨fun entry member =>
        And.intro (keys entry member) (@ih entry member), knownEach⟩).imp fun entry field both => ?_
      obtain ⟨⟨key_eq, holds⟩, knownKey, knownPart⟩ := both
      exact ⟨sound.text_part knownKey key_eq, holds knownPart⟩

theorem isSound_start (graph : YamlGraph) (mergeBound : Nat) (merges : 0 < mergeBound) :
    IsSound graph
      { graph := graph, mergeBound := mergeBound, denoted := Array.replicate graph.size none,
        containers := #[], origins := #[] } 0 where
  graph_eq := rfl
  merges := merges
  places := Array.size_replicate
  paired := rfl
  within := Nat.zero_le _
  stands := by
    intro number part known
    simp [Array.getElem?_replicate] at known
  comes := by simp
  fills := by simp

/-- The value of a graph whose root denotes a value is constructed, and its root holds the
value. -/
theorem value_holds {root : Nat} {value : Value} (denotes : graph.Denotes root value) :
    ∃ shared, YamlConstruction.value graph root = .ok shared ∧ shared.Holds shared.root value := by
  obtain ⟨part, first, partRun, has⟩ :=
    part_run (isSound_start graph (graph.entryCount + 1) (Nat.succ_pos _)) denotes
  obtain ⟨last, fillRun, sound, kept⟩ :=
    @fillFrom_run _ _ (graph.size + 1) 0 (by omega) has.sound
  refine ⟨⟨last.containers, part⟩, ?_, sound.holds denotes (kept _ _ has.known) part⟩
  rw [YamlConstruction.value]
  dsimp only
  rw [run_bind_ok partRun, run_bind_ok fillRun]
  rfl

end YamlConstruction

/-- The document of a record is read as a shared value whose root holds the record. -/
theorem readYaml_document {entries : List (String × Value)} (isRecord : Value.IsRecord entries)
    (each : ∀ entry ∈ entries, entry.2.IsKeptAt 0) :
    ∃ shared, readYaml (YamlWriter.document (.record (Value.namedEntries entries))) = .ok shared ∧
      shared.Holds shared.root (.record (Value.namedEntries entries)) := by
  obtain ⟨graph, root, composed, denotes⟩ := YamlDocument.readYamlDocument_document isRecord each
  obtain ⟨shared, constructed, holds⟩ := YamlConstruction.value_holds denotes
  refine ⟨shared, ?_, holds⟩
  rw [readYaml, composed]
  exact constructed

end RubySyntax
