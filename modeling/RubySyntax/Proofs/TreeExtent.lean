import RubySyntax.Proofs.ReductionLayout
import RubySyntax.Proofs.TreeTokens

/-!
# Extents of trees

The end of a tree as it is computed from the tree and its text is the end of the
layout of the tree.  For that the words which may close the children of a node
have to be those of its form.
-/

namespace RubySyntax

open Node

/-! ### Children along the parts of a form -/

/-- The word that may close the child of a part. -/
def Part.closer? : Part → Option String
  | .closed _ closer => some closer
  | .unclosed closer => some closer
  | _ => none

/-- For each child along some parts the word that may close it. -/
def partClosers : List Part → List (Option String)
  | [] => []
  | .dropped _ :: parts => partClosers parts
  | part :: parts => part.closer? :: partClosers parts

/-- A child that may stand at a part. -/
def Part.Admits (child : Node) : Part → Prop
  | .absent => child.data = Tag.empty ∧ child.isLeaf = true
  | .closed tag _ => tag = Tag.list → child.data = Tag.list
  | .unclosed _ => child.data = Tag.list
  | .opened => child.isEmpty = false
  | _ => True

/-- Children that may stand along some parts. -/
def AdmitsChildren : List Part → List Node → Prop
  | [], children => children = []
  | .dropped _ :: parts, children => AdmitsChildren parts children
  | _ :: _, [] => False
  | part :: parts, child :: children => part.Admits child ∧ AdmitsChildren parts children

theorem AdmitsChildren.length_eq {parts : List Part} {children : List Node}
    (admits : AdmitsChildren parts children) : (partClosers parts).length = children.length := by
  induction parts generalizing children with
  | nil =>
      rw [AdmitsChildren] at admits
      rw [admits]
      rfl
  | cons part parts ih =>
      cases part with
      | dropped symbol => exact ih admits
      | _ =>
        cases children with
        | nil => exact admits.elim
        | cons child children =>
            rw [partClosers, List.length_cons, List.length_cons, ih admits.2]
            simp

/-- A tree with characters of its own is no placeholder. -/
theorem Laid.isEmpty_eq_false {text : List Char} {start stop : Nat} {node : Node}
    (laid : Laid text start (.tree node) stop) (filled : start < stop) :
    node.isEmpty = false := by
  have named : node.data ≠ Tag.empty := by
    cases laid with
    | leaf lead token =>
        intro empty
        have starts := token.starts
        rw [empty] at starts
        exact absurd starts (by decide)
    | vacant within tag isVacant => exact absurd filled (Nat.lt_irrefl start)
    | leading form =>
        have operators : ∀ symbol ∈ leadingOperators, symbol ≠ Tag.empty := by decide
        generalize node.data = data at form
        cases form with
        | operator member => exact operators _ member
        | _ => decide
    | linking form =>
        have operators : ∀ symbol ∈ linkingOperators, symbol ≠ Tag.empty := by decide
        generalize node.data = data at form
        cases form with
        | operator member => exact operators _ member
        | _ => decide
    | bare form =>
        generalize node.data = data at form
        cases form <;> decide
  simp [isEmpty, named]

/-- The children that lie along some parts may stand there. -/
theorem Laid.admitsChildren {text : List Char} {start stop : Nat} {parts : List Part}
    {children : List Node} (laid : Laid text start (.parts parts children) stop) :
    AdmitsChildren parts children := by
  generalize layer_eq : Layer.parts parts children = layer at laid
  induction laid generalizing parts children with
  | leaf | vacant | leading | linking | bare => cases layer_eq
  | nil =>
      cases layer_eq
      rfl
  | child spacing tree filled rest treeIH restIH =>
      cases layer_eq
      exact ⟨trivial, restIH rfl⟩
  | absent isVacant rest ih =>
      cases layer_eq
      exact ⟨⟨isVacant.data_eq, by simp [isLeaf, isVacant.children_eq]⟩, ih rfl⟩
  | vacantList isVacant after before followed rest ih =>
      cases layer_eq
      exact ⟨trivial, ih rfl⟩
  | closed member listed spacing tree comma run spelled rest treeIH restIH =>
      cases layer_eq
      exact ⟨listed, restIH rfl⟩
  | unclosed list spacing tree filled free rest treeIH restIH =>
      cases layer_eq
      exact ⟨list, restIH rfl⟩
  | opened run spelled tree filled rest treeIH restIH =>
      cases layer_eq
      exact ⟨tree.isEmpty_eq_false filled, restIH rfl⟩
  | dropped member spacing spelled followed rest ih =>
      cases layer_eq
      rw [AdmitsChildren]
      exact ih rfl

/-! ### Tokens and closing words of forms -/

/-- The tags of nodes whose token is not spelled like the tag, or that have none. -/
def unspelledTags : List String :=
  [Tag.list, Tag.sequence, Tag.invoke, Tag.index, Tag.block]

/-- The tags of nodes with children that a word may close. -/
def closingTags : List String :=
  [Tag.group, "[", "\x7b", Tag.block, Tag.index, Tag.invoke, "?", "module", "class", "def"]

theorem Node.tokenWord_eq_data {node : Node} (spelled : node.data ∉ unspelledTags) :
    node.tokenWord = node.data := by
  simp only [unspelledTags, List.mem_cons, List.not_mem_nil, or_false, not_or] at spelled
  simp [tokenWord, spelled]

theorem Node.closers_eq_replicate {node : Node} (plain : node.data ∉ closingTags) :
    node.closers = List.replicate node.children.length none := by
  simp only [closingTags, List.mem_cons, List.not_mem_nil, or_false, not_or] at plain
  simp [closers, closingTable, plain]

theorem leadingOperators_tags :
    ∀ symbol ∈ leadingOperators, symbol ∉ unspelledTags ∧ symbol ∉ closingTags := by
  decide

theorem linkingOperators_tags :
    ∀ symbol ∈ linkingOperators, symbol ∉ unspelledTags ∧ symbol ∉ closingTags := by
  decide

theorem LeadingForm.tokenWord_eq {node : Node} {spelling : String} {parts : List Part}
    (form : LeadingForm node.data spelling parts) (admits : AdmitsChildren parts node.children) :
    node.tokenWord = spelling := by
  have inner : node.isLeaf = false := by
    generalize node.data = data at form
    cases children : node.children with
    | nil =>
        rw [children] at admits
        cases form <;> simp [AdmitsChildren] at admits
    | cons child others => simp [isLeaf, children]
  generalize data_eq : node.data = data at form
  cases form with
  | block | blockWithParameters =>
      simp [tokenWord, data_eq, inner, Tag.block, Tag.list, Tag.sequence, Tag.invoke, Tag.index]
  | operator member =>
      rw [tokenWord_eq_data (data_eq ▸ (leadingOperators_tags _ member).1), data_eq]
  | _ => exact (tokenWord_eq_data (data_eq ▸ by decide)).trans data_eq

/-- The children along some parts, in full. -/
theorem AdmitsChildren.cons_inv {part : Part} {parts : List Part} {children : List Node}
    (kept : ∀ symbol, part ≠ .dropped symbol) (admits : AdmitsChildren (part :: parts) children) :
    ∃ child others, children = child :: others ∧ part.Admits child ∧
      AdmitsChildren parts others := by
  cases children with
  | nil => cases part <;> first | exact admits.elim | exact (kept _ rfl).elim
  | cons child others =>
      cases part <;> first | exact ⟨child, others, rfl, admits⟩ | exact (kept _ rfl).elim

theorem LeadingForm.closers_eq {node : Node} {spelling : String} {parts : List Part}
    (form : LeadingForm node.data spelling parts) (admits : AdmitsChildren parts node.children) :
    node.closers = partClosers parts := by
  have length_eq := admits.length_eq
  generalize children_eq : node.children = children at admits length_eq
  generalize data_eq : node.data = data at form
  cases form with
  | operator member =>
      rw [closers_eq_replicate (data_eq ▸ (leadingOperators_tags _ member).2), children_eq,
        ← length_eq]
      rfl
  | aliasDefinition =>
      rw [closers_eq_replicate (data_eq ▸ by decide), children_eq, ← length_eq]
      rfl
  | block =>
      obtain ⟨parameters, others, rfl, ⟨empty, -⟩, -⟩ := admits.cons_inv (by simp)
      simp [closers, closingTable, data_eq, children_eq, empty, ← length_eq, partClosers,
        Part.closer?, Tag.block, Tag.group, Tag.empty, Tag.list]
  | blockWithParameters =>
      obtain ⟨parameters, others, rfl, list, -⟩ :=
        AdmitsChildren.cons_inv (by simp) (show AdmitsChildren (.closed _ _ :: _) _ from admits)
      simp [closers, closingTable, data_eq, children_eq, list rfl, ← length_eq, partClosers,
        Part.closer?, Tag.block, Tag.group, Tag.list]
  | method =>
      obtain ⟨name, others, rfl, -, admits⟩ := admits.cons_inv (by simp)
      obtain ⟨parameters, others, rfl, ⟨empty, -⟩, -⟩ := admits.cons_inv (by simp)
      simp [closers, closingTable, data_eq, children_eq, empty, ← length_eq, partClosers,
        Part.closer?, Tag.block, Tag.group, Tag.index, Tag.invoke, Tag.empty, Tag.list]
  | methodWithBareParameters =>
      obtain ⟨name, others, rfl, -, admits⟩ := admits.cons_inv (by simp)
      obtain ⟨parameters, others, rfl, list, -⟩ := admits.cons_inv (by simp)
      have list_eq : parameters.data = Tag.list := list
      simp [closers, closingTable, data_eq, children_eq, list_eq, ← length_eq, partClosers,
        Part.closer?, Tag.block, Tag.group, Tag.index, Tag.invoke, Tag.list]
  | methodWithParameters =>
      obtain ⟨name, others, rfl, -, admits⟩ := admits.cons_inv (by simp)
      obtain ⟨parameters, others, rfl, list, -⟩ :=
        AdmitsChildren.cons_inv (by simp) (show AdmitsChildren (.closed _ _ :: _) _ from admits)
      simp [closers, closingTable, data_eq, children_eq, list rfl, ← length_eq, partClosers,
        Part.closer?, Tag.block, Tag.group, Tag.index, Tag.invoke, Tag.list]
  | _ =>
      simp [closers, closingTable, data_eq, children_eq, ← length_eq, partClosers,
        Part.closer?, Tag.block, Tag.group, Tag.index, Tag.invoke]

theorem LinkingForm.tokenWord_eq {node first : Node} {others : List Node} {spelling : String}
    {parts : List Part} (form : LinkingForm node.data spelling parts)
    (children_eq : node.children = first :: others)
    (apart : ∀ child ∈ node.children, child.offset ≠ node.offset) :
    node.tokenWord = spelling := by
  have inner : node.isLeaf = false := by simp [isLeaf, children_eq]
  generalize data_eq : node.data = data at form
  cases form with
  | call | callWithBlock =>
      have unshared : (node.children.any fun child => child.offset == node.offset) = false := by
        simpa using apart
      simp [tokenWord, data_eq, inner, unshared, Tag.list, Tag.sequence, Tag.invoke]
  | index =>
      simp [tokenWord, data_eq, inner, Tag.list, Tag.sequence, Tag.invoke, Tag.index]
  | operator member =>
      rw [tokenWord_eq_data (data_eq ▸ (linkingOperators_tags _ member).1), data_eq]
  | _ => exact (tokenWord_eq_data (data_eq ▸ by decide)).trans data_eq

theorem LinkingForm.closers_eq {node first : Node} {others : List Node} {spelling : String}
    {parts : List Part} (form : LinkingForm node.data spelling parts)
    (children_eq : node.children = first :: others) (admits : AdmitsChildren parts others)
    (tokenWord_eq : node.tokenWord = spelling) : node.closers = none :: partClosers parts := by
  have length_eq := admits.length_eq
  generalize data_eq : node.data = data at form
  cases form with
  | operator member =>
      rw [closers_eq_replicate (data_eq ▸ (linkingOperators_tags _ member).2), children_eq,
        List.length_cons, ← length_eq]
      rfl
  | label | pair =>
      rw [closers_eq_replicate (data_eq ▸ by decide), children_eq, List.length_cons, ← length_eq]
      rfl
  | call | callWithBlock | index | conditional =>
      simp [closers, closingTable, data_eq, children_eq, tokenWord_eq, ← length_eq, partClosers,
        Part.closer?, Tag.block, Tag.group, Tag.index, Tag.invoke]

theorem partClosers_append (front back : List Part) :
    partClosers (front ++ back) = partClosers front ++ partClosers back := by
  induction front with
  | nil => rfl
  | cons part parts ih => cases part <;> simp [partClosers, ih]

/-- Nothing closes the items of a list. -/
theorem partClosers_joinedParts {separator : List Part} (plain : partClosers separator = [])
    (count : Nat) : partClosers (joinedParts separator count) = List.replicate (count + 1) none := by
  induction count with
  | zero => rfl
  | succ count ih =>
      rw [joinedParts, partClosers, partClosers_append, plain, ih]
      · rfl
      · simp

theorem BareForm.partClosers_eq {data : String} {parts : List Part} (form : BareForm data parts) :
    ∃ count, partClosers parts = List.replicate (count + 1) none := by
  cases form with
  | list count => exact ⟨count, partClosers_joinedParts rfl count⟩
  | sequence count => exact ⟨count + 1, partClosers_joinedParts rfl (count + 1)⟩
  | command => exact ⟨1, rfl⟩
  | blockCall => exact ⟨2, rfl⟩

theorem BareForm.tokenWord_eq {node : Node} {parts : List Part}
    (form : BareForm node.data parts) (admits : AdmitsChildren parts node.children)
    (shared : node.data = Tag.invoke → ∃ child ∈ node.children, child.offset = node.offset) :
    node.tokenWord = "" := by
  have inner : node.isLeaf = false := by
    obtain ⟨count, closers_eq⟩ := form.partClosers_eq
    have length_eq := admits.length_eq
    rw [closers_eq, List.length_replicate] at length_eq
    cases children_eq : node.children with
    | nil => simp [children_eq] at length_eq
    | cons child others => simp [isLeaf, children_eq]
  generalize data_eq : node.data = data at form shared
  cases form with
  | list => simp [tokenWord, data_eq]
  | sequence => simp [tokenWord, data_eq, inner]
  | command | blockCall =>
      have sharing : (node.children.any fun child => child.offset == node.offset) = true := by
        simpa using shared rfl
      simp [tokenWord, data_eq, inner, sharing]

theorem BareForm.closers_eq {node : Node} {parts : List Part}
    (form : BareForm node.data parts) (admits : AdmitsChildren parts node.children)
    (tokenWord_eq : node.tokenWord = "") : node.closers = partClosers parts := by
  obtain ⟨count, partClosers_eq⟩ := form.partClosers_eq
  have length_eq := admits.length_eq
  rw [partClosers_eq, List.length_replicate] at length_eq
  rw [partClosers_eq, length_eq]
  by_cases invoke : node.data = Tag.invoke
  · simp [closers, closingTable, invoke, tokenWord_eq, Tag.block, Tag.group, Tag.index, Tag.invoke]
  · refine closers_eq_replicate ?_
    rcases form.inv with ⟨data_eq, -⟩ | ⟨data_eq, -⟩ | data_eq
    · rw [data_eq]
      decide
    · rw [data_eq]
      decide
    · exact (invoke data_eq).elim

/-! ### Ends of trees -/

theorem closedBehind_of_spelled {text : List Char} {behind place : Nat} {word : String}
    (place_eq : placeBehind text behind = place) (spelled : Spelled text place word) :
    closedBehind text behind (some word) = some (place, word) := by
  simp only [closedBehind, place_eq]
  exact if_pos (List.isPrefixOf_iff_prefix.mpr spelled)

theorem closedBehind_of_not_spelled {text : List Char} {behind : Nat} {word : String}
    (free : ¬ Spelled text (placeBehind text behind) word) :
    closedBehind text behind (some word) = none := by
  simp only [closedBehind]
  exact if_neg fun closed => free (List.isPrefixOf_iff_prefix.mp closed)

/-- The words that close a child begin with no comma. -/
theorem closingWords_no_comma :
    ∀ word ∈ closingWords, startsWithChar (· != ',') word.toList = true := by
  decide

/-- The comments behind an item, with a comma in front of them or without, run up to the place
behind the item. -/
theorem TrailingComma.placeBehind_eq {text : List Char} {middle after place : Nat}
    {trailing : List Node} {word : String} (comma : TrailingComma text middle after)
    (run : CommentRun text after trailing place) (spelled : Spelled text place word)
    (member : word ∈ closingWords) : placeBehind text middle = place := by
  cases comma with
  | none =>
      have noComma : text[place]? ≠ some ',' := by
        have begins := closingWords_no_comma word member
        obtain ⟨back, equal⟩ := spelled
        cases characters : word.toList with
        | nil => simp [characters, startsWithChar] at begins
        | cons character rest =>
            rw [characters] at begins equal
            rw [← Nat.add_zero place, ← List.getElem?_drop, ← equal]
            simpa [startsWithChar] using begins
      rw [placeBehind, run.tokenPlace_eq, if_neg noComma]
  | comma commaRun present =>
      rw [placeBehind, commaRun.tokenPlace_eq, if_pos present, run.tokenPlace_eq]

theorem Laid.eq_of_nil {text : List Char} {start stop : Nat} {parts : List Part}
    (laid : Laid text start (.parts parts []) stop) : stop = start := by
  cases laid with
  | nil => rfl
  | dropped member spacing spelled followed => exact (followed.ne_nil rfl).elim

/-- Two nodes that differ in their comments only. -/
structure SameBody (node other : Node) : Prop where
  data_eq : node.data = other.data
  children_eq : node.children = other.children
  offset_eq : node.offset = other.offset

namespace SameBody

theorem refl (node : Node) : SameBody node node :=
  ⟨rfl, rfl, rfl⟩

variable {node other : Node}

theorem start_eq (same : SameBody node other) : node.start = other.start := by
  rw [start, start, same.offset_eq]

/-- The tokens of a node and of its children do not depend on its comments. -/
theorem tokenWord_eq (same : SameBody node other) : node.tokenWord = other.tokenWord := by
  obtain ⟨data, children, comments, offset, position⟩ := node
  obtain ⟨data', children', comments', offset', position'⟩ := other
  obtain ⟨rfl, rfl, rfl⟩ := same
  rfl

theorem childTokens_eq (same : SameBody node other) (text : List Char) :
    node.childTokens text = other.childTokens text := by
  obtain ⟨data, children, comments, offset, position⟩ := node
  obtain ⟨data', children', comments', offset', position'⟩ := other
  obtain ⟨rfl, rfl, rfl⟩ := same
  rfl

end SameBody

/-- Every child along some parts has a layout of its own between their ends. -/
theorem Laid.child_of_mem {text : List Char} {start stop : Nat} {parts : List Part}
    {children : List Node} (laid : Laid text start (.parts parts children) stop) :
    ∀ child ∈ children, ∃ before middle inner, start ≤ before ∧ middle ≤ stop ∧
      Laid text before (.tree inner) middle ∧ SameBody child inner := by
  generalize layer_eq : Layer.parts parts children = layer at laid
  induction laid generalizing parts children with
  | leaf | vacant | leading | linking | bare => cases layer_eq
  | nil =>
      cases layer_eq
      simp
  | @child start before middle stop node parts children spacing tree filled rest treeIH restIH =>
      cases layer_eq
      have spacingLe := spacing.le
      have onward := rest.bounds
      rintro child (_ | ⟨_, member⟩)
      · exact ⟨before, middle, node, spacingLe, onward.1, tree, .refl node⟩
      · obtain ⟨front, back, inner, after, within, innerLaid, same⟩ := restIH rfl child member
        exact ⟨front, back, inner, by omega, within, innerLaid, same⟩
  | @absent start stop node parts children isVacant rest ih =>
      cases layer_eq
      have onward := rest.bounds
      rintro child (_ | ⟨_, member⟩)
      · exact ⟨start, start, node, Nat.le_refl _, onward.1,
          .vacant (by omega) (Or.inl rfl) isVacant, .refl node⟩
      · exact ih rfl child member
  | @vacantList start place stop node parts children isVacant after before followed rest ih =>
      cases layer_eq
      have onward := rest.bounds
      rintro child (_ | ⟨_, member⟩)
      · exact ⟨place, place, node, after, before, .vacant (by omega) (Or.inr rfl) isVacant,
          .refl node⟩
      · exact ih rfl child member
  | @closed start before middle after place stop node trailing tag closer parts children member
      listed spacing tree comma run spelled rest treeIH restIH =>
      cases layer_eq
      have spacingLe := spacing.le
      have treeBounds := tree.bounds
      have commaBounds := comma.bounds treeBounds.2
      have runBounds := run.bounds
      have onward := rest.bounds
      rintro child (_ | ⟨_, member⟩)
      · exact ⟨before, middle, node, spacingLe, by omega, tree, rfl, rfl, rfl⟩
      · obtain ⟨front, back, inner, behind, within, innerLaid, same⟩ := restIH rfl child member
        exact ⟨front, back, inner, by omega, within, innerLaid, same⟩
  | @unclosed start before middle stop node closer parts children list spacing tree filled free
      rest treeIH restIH =>
      cases layer_eq
      have spacingLe := spacing.le
      have onward := rest.bounds
      rintro child (_ | ⟨_, member⟩)
      · exact ⟨before, middle, node, spacingLe, onward.1, tree, .refl node⟩
      · obtain ⟨front, back, inner, after, within, innerLaid, same⟩ := restIH rfl child member
        exact ⟨front, back, inner, by omega, within, innerLaid, same⟩
  | @opened start place middle stop node comments parts children run spelled tree filled rest
      treeIH restIH =>
      cases layer_eq
      have runBounds := run.bounds
      have onward := rest.bounds
      rintro child (_ | ⟨_, member⟩)
      · exact ⟨place + "<".length, middle, node, by omega, onward.1, tree, rfl, rfl, rfl⟩
      · obtain ⟨front, back, inner, after, within, innerLaid, same⟩ := restIH rfl child member
        exact ⟨front, back, inner, by omega, within, innerLaid, same⟩
  | dropped member spacing spelled followed rest ih =>
      cases layer_eq
      have spacingLe := spacing.le
      intro child member
      obtain ⟨front, back, inner, after, within, innerLaid, same⟩ := ih rfl child member
      exact ⟨front, back, inner, by omega, within, innerLaid, same⟩

/-- Every child along some parts begins behind their start. -/
theorem Laid.start_le_of_mem {text : List Char} {start stop : Nat} {parts : List Part}
    {children : List Node} (laid : Laid text start (.parts parts children) stop) {child : Node}
    (member : child ∈ children) :
    ∃ offset : Nat, child.offset = some (offset : Int) ∧ start ≤ offset := by
  obtain ⟨before, middle, inner, after, -, innerLaid, same⟩ := laid.child_of_mem child member
  obtain ⟨offset, offset_eq, behind, -⟩ := innerLaid.offset_bounds
  exact ⟨offset, same.offset_eq.trans offset_eq, by omega⟩

/-- The children of a node whose token stands behind the first child do not share its offset. -/
theorem Laid.apart {text : List Char} {start middle place behind stop : Nat} {node first : Node}
    {others : List Node} {parts : List Part} (children_eq : node.children = first :: others)
    (front : Laid text start (.tree first) middle) (filled : start < middle)
    (after : middle ≤ place) (before : place < behind)
    (offset_eq : node.offset = some (place : Int))
    (rest : Laid text behind (.parts parts others) stop) :
    ∀ child ∈ node.children, child.offset ≠ node.offset := by
  rw [children_eq, offset_eq]
  rintro child (_ | ⟨_, member⟩)
  · obtain ⟨offset, firstOffset, -, -, inner⟩ := front.offset_bounds
    have := inner filled
    rw [firstOffset]
    rintro equal
    injection equal with equal
    omega
  · obtain ⟨offset, childOffset, later⟩ := rest.start_le_of_mem member
    rw [childOffset]
    rintro equal
    injection equal with equal
    omega

/-- The token of a node whose token stands behind its first child, and the words that close its
children. -/
theorem LinkingForm.tokens_eq {text : List Char} {start middle place stop : Nat}
    {node first : Node} {others : List Node} {spelling : String} {parts : List Part}
    (form : LinkingForm node.data spelling parts) (children_eq : node.children = first :: others)
    (front : Laid text start (.tree first) middle) (filled : start < middle)
    (after : middle ≤ place) (offset_eq : node.offset = some (place : Int))
    (rest : Laid text (place + spelling.length) (.parts parts others) stop) :
    node.tokenWord = spelling ∧ node.closers = none :: partClosers parts := by
  have positive := form.spelling_length_pos
  have tokenWord_eq := form.tokenWord_eq children_eq
    (Laid.apart children_eq front filled after (by omega) offset_eq rest)
  exact ⟨tokenWord_eq, form.closers_eq children_eq rest.admitsChildren tokenWord_eq⟩

/-- The end that is computed for a tree, or for children along some parts. -/
def EndsAt (text : List Char) (stop : Nat) : Layer → Prop
  | .tree node => node.stop text = stop
  | .parts parts children => children ≠ [] → stopOfAll text (partClosers parts) children = stop

private theorem max_stopOfAll {text : List Char} {middle stop : Nat} {parts : List Part}
    {children : List Node} (rest : Laid text middle (.parts parts children) stop)
    (ends : children ≠ [] → stopOfAll text (partClosers parts) children = stop) {behind : Nat}
    (le : behind ≤ middle) (reaches : children = [] → behind = middle) :
    max behind (stopOfAll text (partClosers parts) children) = stop := by
  have onward := rest.bounds
  cases children with
  | nil =>
      have stop_eq := rest.eq_of_nil
      have behind_eq := reaches rfl
      rw [stopOfAll]
      omega
  | cons child children =>
      rw [ends (by simp)]
      omega

theorem LeafToken.tokenWord_eq {text : List Char} {place : Nat} {node : Node}
    (token : LeafToken text place node) : node.tokenWord = node.data := by
  have solid : node.data ≠ Tag.list := by
    intro list
    have starts := token.starts
    rw [list] at starts
    exact absurd starts (by decide)
  simp [tokenWord, solid, isLeaf, token.children_eq]

theorem IsVacant.tokenWord_eq {data : String} {offset : Nat} {node : Node}
    (isVacant : IsVacant data offset node) (tag : data = Tag.empty ∨ data = Tag.list) :
    node.tokenWord = "" := by
  rcases tag with rfl | rfl
  · simp [tokenWord, isVacant.data_eq, isLeaf, isVacant.children_eq, Tag.empty]
  · simp [tokenWord, isVacant.data_eq]

theorem IsVacant.stop_eq {text : List Char} {data : String} {offset : Nat} {node : Node}
    (isVacant : IsVacant data offset node) (tag : data = Tag.empty ∨ data = Tag.list) :
    node.stop text = offset := by
  rw [Node.stop_eq, isVacant.tokenWord_eq tag, isVacant.children_eq,
    start_eq isVacant.offset_eq, stopOfAll]
  exact Nat.max_eq_left (Nat.zero_le _)

/-- The end of a tree as computed from the text is the end of its layout. -/
theorem Laid.endsAt {text : List Char} {start stop : Nat} {layer : Layer}
    (laid : Laid text start layer stop) : EndsAt text stop layer := by
  induction laid with
  | @leaf start place node lead token =>
      show node.stop text = place + node.data.length
      rw [stop_eq, token.tokenWord_eq, token.children_eq, start_eq token.offset_eq, stopOfAll]
      exact Nat.max_eq_left (Nat.zero_le _)
  | vacant within tag isVacant => exact isVacant.stop_eq tag
  | @leading start place stop node spelling parts form lead offset_eq spelled rest ih =>
      have admits := rest.admitsChildren
      show node.stop text = stop
      rw [stop_eq, form.tokenWord_eq admits, form.closers_eq admits, start_eq offset_eq]
      exact max_stopOfAll rest ih (Nat.le_refl _) (fun _ => rfl)
  | @linking start middle place stop node first others spelling parts form children_eq front
      filled lead offset_eq spelled rest frontIH restIH =>
      have leadBounds := lead.bounds
      obtain ⟨tokenWord_eq, closers_eq⟩ :=
        form.tokens_eq children_eq front filled leadBounds.1 offset_eq rest
      have first_eq : first.stop text = middle := frontIH
      have reached := max_stopOfAll rest restIH (Nat.le_refl _) (fun _ => rfl)
      show node.stop text = stop
      rw [stop_eq, tokenWord_eq, closers_eq, start_eq offset_eq, children_eq, stopOfAll]
      simp only [List.head?_cons, Option.join_some, List.tail_cons, closedEnd, closedBehind,
        first_eq]
      omega
  | @bare start place stop node parts form comments_eq offset_eq after before shared rest ih =>
      have admits := rest.admitsChildren
      have tokenWord_eq := form.tokenWord_eq admits shared
      have nonempty : node.children ≠ [] := by
        rintro empty
        rw [empty] at rest
        have := rest.eq_of_nil
        omega
      show node.stop text = stop
      rw [stop_eq, tokenWord_eq, form.closers_eq admits tokenWord_eq, start_eq offset_eq,
        ih nonempty]
      exact Nat.max_eq_right (Nat.le_of_lt before)
  | nil within => exact fun impossible => (impossible rfl).elim
  | @child start before middle stop node parts children spacing tree filled rest treeIH restIH =>
      intro _
      have node_eq : node.stop text = middle := treeIH
      show max (closedEnd text (node.stop text) none) (stopOfAll text _ children) = stop
      rw [node_eq]
      exact max_stopOfAll rest restIH (Nat.le_refl _) (fun _ => rfl)
  | @absent start stop node parts children isVacant rest ih =>
      intro _
      show max (closedEnd text (node.stop text) none) (stopOfAll text _ children) = stop
      rw [isVacant.stop_eq (Or.inl rfl)]
      exact max_stopOfAll rest ih (Nat.le_refl _) (fun _ => rfl)
  | @vacantList start place stop node parts children isVacant after before followed rest ih =>
      intro _
      have ends : stopOfAll text (partClosers parts) children = stop := ih followed.ne_nil
      show max (closedEnd text (node.stop text) none)
        (stopOfAll text (partClosers parts) children) = stop
      rw [isVacant.stop_eq (Or.inr rfl), ends]
      exact Nat.max_eq_right before
  | @closed start before middle after place stop node trailing tag closer parts children member
      listed spacing tree comma run spelled rest treeIH restIH =>
      intro _
      have node_eq : (node.appendComments trailing).stop text = middle := by
        rw [stop_appendComments]
        exact treeIH
      have closing := closedBehind_of_spelled (comma.placeBehind_eq run spelled member) spelled
      show max (closedEnd text ((node.appendComments trailing).stop text) (some closer))
        (stopOfAll text _ children) = stop
      rw [node_eq, closedEnd, closing]
      exact max_stopOfAll rest restIH (Nat.le_refl _) (fun _ => rfl)
  | @unclosed start before middle stop node closer parts children list spacing tree filled free
      rest treeIH restIH =>
      intro _
      have node_eq : node.stop text = middle := treeIH
      show max (closedEnd text (node.stop text) (some closer)) (stopOfAll text _ children) = stop
      rw [node_eq, closedEnd, closedBehind_of_not_spelled free]
      exact max_stopOfAll rest restIH (Nat.le_refl _) (fun _ => rfl)
  | @opened start place middle stop node comments parts children run spelled tree filled rest
      treeIH restIH =>
      intro _
      have node_eq : (node.withComments comments).stop text = middle := by
        rw [stop_withComments]
        exact treeIH
      show max (closedEnd text ((node.withComments comments).stop text) none)
        (stopOfAll text _ children) = stop
      rw [node_eq]
      exact max_stopOfAll rest restIH (Nat.le_refl _) (fun _ => rfl)
  | dropped member spacing spelled followed rest ih => exact fun _ => ih followed.ne_nil

theorem Laid.stop_eq {text : List Char} {start stop : Nat} {node : Node}
    (laid : Laid text start (.tree node) stop) : node.stop text = stop :=
  laid.endsAt

end RubySyntax
