import RubySyntax.Proofs.GrammarTotality
import RubySyntax.Proofs.LineScanning
import RubySyntax.Proofs.MappedTrees
import RubySyntax.Proofs.PhraseReading
import RubySyntax.Proofs.RelatedRuns
import RubySyntax.Proofs.ResolutionLayout

/-!
# Rules over two texts

Two texts are read alike if the places where tokens are looked for are related, whatever is
skipped in front of a token leads to related places again, and the few tokens that are looked
for across lines are found in both or in neither.  Then every rule of the grammar answers the
same tree, up to a view of it, and so does a whole program.
-/

namespace RubySyntax

/-- A leaf holds characters of the word that its place stands in front of. -/
theorem Matcher.leafAt_append {kind : Terminal} {cursor : Cursor} {word behind : List Char}
    (rest_eq : cursor.rest = word ++ behind) {length : Nat} (within : length ≤ word.length) :
    leafAt kind cursor length =
      { data := kind.dataOf (word.take length), offset := some (cursor.offset : Int) } := by
  rw [leafAt, rest_eq, List.take_append_of_le_length within]

/-- From related places both texts go on with one word, and behind it with what ends a line. -/
def PlaceRelation.SharesWord (near : PlaceRelation) : Prop :=
  ∀ ⦃cursor onward : Cursor⦄, near cursor onward →
    ∃ word behind other, cursor.rest = word ++ behind ∧ onward.rest = word ++ other ∧
      EndsLine behind ∧ EndsLine other ∧
        ∀ count ≤ word.length, near (cursor.advance count) (onward.advance count)

namespace PlaceRelation.SharesWord

variable {near : PlaceRelation} (shares : near.SharesWord)
include shares

theorem scan {scanner : Scanner} (stays : Lexeme.StaysOnLine scanner) :
    Matcher.Alike near near id (Matcher.scan scanner) (Matcher.scan scanner) := by
  intro cursor onward alike
  obtain ⟨word, behind, other, rest_eq, onward_eq, ends, endsToo, advances⟩ := shares alike
  rw [Matcher.scan, Matcher.scan, rest_eq, onward_eq, stays.stops ends word,
    stays.stops endsToo word]
  cases scanned : scanner word with
  | none => exact .failed
  | some length => exact .matched rfl (advances length (stays.within scanned))

theorem terminal {kind : Terminal} (stays : Lexeme.StaysOnLine kind.scanner)
    {view : Node → Node} (leaves : ∀ (data : String) (offset other : Int),
      view { data := data, offset := offset } = view { data := data, offset := other }) :
    Matcher.Alike near near view (Matcher.terminal kind) (Matcher.terminal kind) := by
  intro cursor onward alike
  obtain ⟨word, behind, other, rest_eq, onward_eq, ends, endsToo, advances⟩ := shares alike
  have here : kind.scanner cursor.rest = kind.scanner word := rest_eq ▸ stays.stops ends word
  have there : kind.scanner onward.rest = kind.scanner word :=
    onward_eq ▸ stays.stops endsToo word
  cases scanned : kind.scanner word with
  | none => exact .noToken (here.trans scanned) (there.trans scanned)
  | some length =>
      have within := stays.within scanned
      refine .token (here.trans scanned) (there.trans scanned) ?_ (advances length within)
      rw [Matcher.leafAt_append rest_eq within, Matcher.leafAt_append onward_eq within]
      exact leaves _ _ _

end PlaceRelation.SharesWord

/-- What it takes for two texts to be read alike. -/
structure Likeness where
  /-- Places behind a token. -/
  near : PlaceRelation
  /-- Places in front of an operand, which may be apart by blanks and comments. -/
  far : PlaceRelation
  /-- What is compared of a tree. -/
  view : Node → Node
  /-- What is compared of comments. -/
  notes : List Node → List Node
  keepsShape : KeepsShape view
  view_inj {node other : Node} : view node = view other ↔
    node.data = other.data ∧ node.children.map view = other.children.map view ∧
      notes node.comments = notes other.comments
  notes_append (front back : List Node) : notes (front ++ back) = notes front ++ notes back
  far_of_near {cursor onward : Cursor} : near cursor onward → far cursor onward
  sharesWord : near.SharesWord
  near_horizontal {cursor onward : Cursor} : near cursor onward →
    near.behind .horizontal cursor onward
  far_gap {cursor onward : Cursor} : near cursor onward → far.behind .gap cursor onward
  commentsBefore (kind : Skip) (passes : kind ≠ .horizontal) :
    Matcher.Alike far (near.behind kind) notes
      (Matcher.commentsBefore kind) (Matcher.commentsBefore kind)
  separator : Matcher.Alike near far view
    (Matcher.onSameLine (Matcher.terminal .separator))
    (Matcher.onSameLine (Matcher.terminal .separator))
  /-- Commas and bars may stand on a later line. -/
  punctuationBehind (symbol : String) (listed : symbol ∈ [",", "|"]) :
    Matcher.Alike near near view (Matcher.afterSkip .blanks (Matcher.punctuation symbol))
      (Matcher.afterSkip .blanks (Matcher.punctuation symbol))
  /-- So may the name behind a dot. -/
  dot : Matcher.Alike near (near.behind .blanks) view
    ((Matcher.punctuation "&.").orElse (Matcher.punctuation "." "."))
    ((Matcher.punctuation "&.").orElse (Matcher.punctuation "." "."))
  commandStart : Matcher.Alike near near id
    (Matcher.scan Lexeme.commandStart) (Matcher.scan Lexeme.commandStart)
  sameLineValue : Matcher.Alike near near id
    (Matcher.scan Lexeme.sameLineValue) (Matcher.scan Lexeme.sameLineValue)
  endOfInput : Matcher.Alike near near view
    (Matcher.terminal .endOfInput) (Matcher.terminal .endOfInput)

namespace Likeness

open Matcher (Alike)

variable (likeness : Likeness)

/-! ### Trees that productions build -/

section

variable {node other : Node} (same : likeness.view node = likeness.view other)
include same

theorem notes_comments : likeness.notes node.comments = likeness.notes other.comments :=
  (likeness.view_inj.mp same).2.2

theorem view_withComments {comments others : List Node}
    (noted : likeness.notes comments = likeness.notes others) :
    likeness.view (node.withComments comments) = likeness.view (other.withComments others) := by
  obtain ⟨data, children, own⟩ := likeness.view_inj.mp same
  exact likeness.view_inj.mpr ⟨data, children, by
    rw [Node.withComments, Node.withComments, likeness.notes_append, likeness.notes_append, noted,
      own]⟩

theorem view_appendComments {comments others : List Node}
    (noted : likeness.notes comments = likeness.notes others) :
    likeness.view (node.appendComments comments) =
      likeness.view (other.appendComments others) := by
  obtain ⟨data, children, own⟩ := likeness.view_inj.mp same
  exact likeness.view_inj.mpr ⟨data, children, by
    rw [Node.appendComments, Node.appendComments, likeness.notes_append, likeness.notes_append,
      noted, own]⟩

theorem view_withChildren {children others : List Node}
    (sameChildren : children.map likeness.view = others.map likeness.view) :
    likeness.view (node.withChildren children) = likeness.view (other.withChildren others) := by
  obtain ⟨data, -, comments⟩ := likeness.view_inj.mp same
  exact likeness.view_inj.mpr ⟨data, sameChildren, comments⟩

theorem view_retag (data : String) :
    likeness.view (node.retag data) = likeness.view (other.retag data) := by
  obtain ⟨-, children, comments⟩ := likeness.view_inj.mp same
  exact likeness.view_inj.mpr ⟨rfl, children, comments⟩

theorem view_pairNode {value another : List Node}
    (sameValue : value.map likeness.view = another.map likeness.view) :
    likeness.view (Matcher.pairNode node value) =
      likeness.view (Matcher.pairNode other another) :=
  likeness.view_inj.mpr ⟨rfl, by simp [Matcher.pairNode, same, sameValue], rfl⟩

end

theorem view_emptyAt (offset other : Int) :
    likeness.view (Node.emptyAt offset) = likeness.view (Node.emptyAt other) :=
  likeness.view_inj.mpr ⟨rfl, rfl, rfl⟩

theorem view_listNode (offset other : Nat) {items others : List Node}
    (same : items.map likeness.view = others.map likeness.view) :
    likeness.view (Matcher.listNode offset items) = likeness.view (Matcher.listNode other others) :=
  likeness.view_inj.mpr ⟨rfl, same, rfl⟩

/-! ### Parts of productions -/

/-- Matchers of trees that answer alike behind a token. -/
abbrev Trees (matcher other : Matcher Node) : Prop :=
  Alike likeness.near likeness.near likeness.view matcher other

/-- Matchers of trees that answer alike in front of an operand. -/
abbrev Operands (matcher other : Matcher Node) : Prop :=
  Alike likeness.far likeness.near likeness.view matcher other

/-- Matchers of lists of trees that answer alike behind a token. -/
abbrev Lists (matcher other : Matcher (List Node)) : Prop :=
  Alike likeness.near likeness.near (List.map likeness.view) matcher other

variable {likeness}

theorem Operands.trees {matcher other : Matcher Node} (first : likeness.Operands matcher other) :
    likeness.Trees matcher other :=
  first.mono likeness.far_of_near id

variable (likeness)

theorem terminal {kind : Terminal} (stays : Lexeme.StaysOnLine kind.scanner) :
    likeness.Trees (Matcher.terminal kind) (Matcher.terminal kind) :=
  likeness.sharesWord.terminal stays fun _ _ _ => likeness.view_inj.mpr ⟨rfl, rfl, rfl⟩

theorem punctuation {symbol excluded : String} (inner : Lexeme.IsInLine symbol)
    (innerToo : Lexeme.IsInLine excluded) :
    likeness.Trees (Matcher.punctuation symbol excluded) (Matcher.punctuation symbol excluded) :=
  likeness.terminal (Lexeme.punctuation_staysOnLine inner innerToo)

theorem keyword {word : String} (solid : IsSolid word.toList) :
    likeness.Trees (Matcher.keyword word) (Matcher.keyword word) :=
  likeness.terminal (Lexeme.spelling_staysOnLine solid)

/-- Within a line, blanks are skipped alike. -/
theorem onSameLine {α γ : Type} {ends : PlaceRelation} {view : α → γ} {matcher other : Matcher α}
    (first : Alike likeness.near ends view matcher other) :
    Alike likeness.near ends view (Matcher.onSameLine matcher) (Matcher.onSameLine other) :=
  first.afterSkip.mono likeness.near_horizontal id

theorem spaced {matcher other : Matcher Node} {ends : PlaceRelation}
    (first : Alike likeness.near ends likeness.view matcher other) :
    Alike likeness.far ends likeness.view (Matcher.spaced matcher) (Matcher.spaced other) :=
  (likeness.commentsBefore .blanks (by decide)).bind fun _ _ noted =>
    first.afterSkip.bind fun _ _ same => Alike.pure (likeness.view_withComments same noted)

theorem orEmpty {matcher other : Matcher Node} (first : likeness.Trees matcher other) :
    likeness.Trees (Matcher.orEmpty matcher) (Matcher.orEmpty other) :=
  Alike.here.bind fun _ _ _ => first.bindOptional (Alike.pure (likeness.view_emptyAt _ _))
    fun _ _ same => Alike.pure same

theorem closing {closer other : Matcher Node} {kind : Skip} (passes : kind ≠ .horizontal)
    (closes : likeness.Trees closer other) :
    Alike likeness.near likeness.near likeness.notes
      (Matcher.closing closer kind) (Matcher.closing other kind) :=
  ((likeness.commentsBefore kind passes).mono likeness.far_of_near id).bind fun _ _ noted =>
    closes.afterSkip.bind fun _ _ _ => Alike.pure noted

theorem comma : likeness.Trees Matcher.comma Matcher.comma :=
  likeness.punctuationBehind "," (by decide)

theorem commaOnSameLine : likeness.Trees Matcher.commaOnSameLine Matcher.commaOnSameLine :=
  likeness.onSameLine (likeness.punctuation (by decide) (by decide))

section

variable {item other separator : Matcher Node} (items : likeness.Trees item other)
  (separators : likeness.Trees separator separator)
include items separators

theorem separated :
    likeness.Lists (Matcher.separated item separator) (Matcher.separated other separator) :=
  items.bind fun _ _ sameFirst => (separators.bind fun _ _ _ => items).many.bind fun _ _ same =>
    Alike.pure (by rw [List.map_cons, List.map_cons, sameFirst, same])

theorem itemList :
    likeness.Trees (Matcher.itemList item separator) (Matcher.itemList other separator) :=
  Alike.here.bind fun _ _ _ => (likeness.separated items separators).bind fun _ _ same =>
    Alike.pure (likeness.view_listNode _ _ same)

theorem optionalItemList : likeness.Trees (Matcher.optionalItemList item separator)
    (Matcher.optionalItemList other separator) :=
  Alike.here.bind fun _ _ _ => (likeness.separated items separators).bindOptional
    (Alike.pure (likeness.view_listNode _ _ rfl)) fun _ _ same =>
      Alike.pure (likeness.view_listNode _ _ same)

theorem trailedItemList : likeness.Trees (Matcher.trailedItemList item separator)
    (Matcher.trailedItemList other separator) :=
  Alike.here.bind fun _ _ _ => Alike.bindOptional
    ((likeness.separated items separators).bind fun _ _ same =>
      separators.optional.bind fun _ _ _ => Alike.pure same)
    (Alike.pure (likeness.view_listNode _ _ rfl)) fun _ _ same =>
      Alike.pure (likeness.view_listNode _ _ same)

end

theorem splatParameter : likeness.Trees Matcher.splatParameter Matcher.splatParameter := by
  have splats : Lexeme.StaysOnLine (Lexeme.oneOf ["**", "*", "&"]) :=
    Lexeme.oneOf_staysOnLine (by decide) (by decide)
  exact (Operands.trees (likeness.spaced (likeness.terminal splats))).bind
    fun _ _ sameOperator => (likeness.terminal Lexeme.identifier_staysOnLine).bind fun _ _ same =>
      Alike.pure (likeness.view_withChildren sameOperator (by simp [same]))

theorem parameter {default other : Matcher Node} (values : likeness.Trees default other) :
    likeness.Trees (Matcher.parameter default) (Matcher.parameter other) := by
  have labelled : likeness.Trees (Matcher.labelParameter default) (Matcher.labelParameter other) :=
    (Operands.trees (likeness.spaced (likeness.terminal Lexeme.label_staysOnLine))).bind
      fun _ _ sameKey => (likeness.sameLineValue.bind fun _ _ _ => values).bindOptional
        (Alike.pure (likeness.view_pairNode sameKey rfl)) fun _ _ same =>
          Alike.pure (likeness.view_pairNode sameKey (by simp [same]))
  have named : likeness.Trees (Matcher.namedParameter default) (Matcher.namedParameter other) := by
    have defaults : Alike likeness.near likeness.near (Prod.map likeness.view likeness.view)
        (do
          let equals ← Matcher.onSameLine (Matcher.punctuation "=" "=~>")
          let value ← default
          return (equals, value))
        (do
          let equals ← Matcher.onSameLine (Matcher.punctuation "=" "=~>")
          let value ← other
          return (equals, value)) :=
      (likeness.onSameLine (likeness.punctuation (by decide) (by decide))).bind
        fun _ _ sameEquals => values.bind fun _ _ same =>
          Alike.pure (by rw [Prod.map_apply, Prod.map_apply, sameEquals, same])
    refine (Operands.trees (likeness.spaced (likeness.terminal
      Lexeme.identifier_staysOnLine))).bind fun _ _ sameName =>
        defaults.bindOptional (Alike.pure sameName) fun _ _ same => Alike.pure ?_
    obtain ⟨sameEquals, sameValue⟩ := Prod.mk.inj same
    exact likeness.view_withChildren sameEquals (by simp [sameName, sameValue])
  exact likeness.splatParameter.firstOfCons
    (labelled.firstOfCons (named.firstOfCons Alike.firstOfNil))

theorem definition {word : String} {parts others : Matcher (List Node)}
    (solid : IsSolid word.toList) (first : likeness.Lists parts others) :
    likeness.Trees (Matcher.definition word parts) (Matcher.definition word others) :=
  (likeness.keyword solid).bind fun _ _ sameWord => first.bind fun _ _ same =>
    Alike.pure (likeness.view_withChildren sameWord same)

theorem definedName : likeness.Trees Matcher.definedName Matcher.definedName := by
  have singletons : Alike likeness.near likeness.near (Prod.map likeness.view likeness.view)
      (do
        let dot ← Matcher.punctuation "."
        let member ← Matcher.terminal .methodName
        return (dot, member))
      (do
        let dot ← Matcher.punctuation "."
        let member ← Matcher.terminal .methodName
        return (dot, member)) :=
    (likeness.punctuation (by decide) (by decide)).bind fun _ _ sameDot =>
      (likeness.terminal Lexeme.methodName_staysOnLine).bind fun _ _ same =>
        Alike.pure (by rw [Prod.map_apply, Prod.map_apply, sameDot, same])
  refine (Operands.trees (likeness.spaced (likeness.terminal
    Lexeme.methodName_staysOnLine))).bind fun _ _ sameName =>
      singletons.bindOptional (Alike.pure sameName) fun _ _ same => Alike.pure ?_
  obtain ⟨sameDot, sameMember⟩ := Prod.mk.inj same
  exact likeness.view_withChildren sameDot (by simp [sameName, sameMember])

theorem aliasDefinition : likeness.Trees Matcher.aliasDefinition Matcher.aliasDefinition := by
  have names : likeness.Trees Matcher.aliasName Matcher.aliasName :=
    likeness.onSameLine ((likeness.terminal Lexeme.symbol_staysOnLine).firstOfCons
      ((likeness.terminal Lexeme.globalVariable_staysOnLine).firstOfCons
        ((likeness.terminal Lexeme.methodName_staysOnLine).firstOfCons Alike.firstOfNil)))
  exact likeness.definition (by decide) (names.bind fun _ _ sameNew =>
    names.bind fun _ _ sameOld => Alike.pure (by simp [sameNew, sameOld]))

/-! ### Productions -/

section

variable {rules others : Rules}
  (expressions : ∀ reference, likeness.Operands (rules reference) (others reference))
include expressions

theorem body : likeness.Trees (Matcher.body rules) (Matcher.body others) :=
  likeness.orEmpty ((expressions (.expression .statement)).afterSkip.mono likeness.far_gap id)

theorem bodyUpTo {closer other : Matcher (List Node)}
    (closes : Alike likeness.near likeness.near likeness.notes closer other) :
    likeness.Trees (Matcher.bodyUpTo rules closer) (Matcher.bodyUpTo others other) :=
  (likeness.body expressions).bind fun _ _ sameBody => closes.bind fun _ _ noted =>
    Alike.pure (likeness.view_appendComments sameBody noted)

theorem bodyUpToEnd : likeness.Trees (Matcher.bodyUpToEnd rules) (Matcher.bodyUpToEnd others) :=
  likeness.bodyUpTo expressions (likeness.closing (by decide) (likeness.keyword (by decide)))

theorem argument (mode : Mode) :
    likeness.Trees (Matcher.argument rules mode) (Matcher.argument others mode) := by
  have labelled : likeness.Trees (Matcher.labelPair rules mode) (Matcher.labelPair others mode) :=
    (Operands.trees (likeness.spaced (likeness.terminal Lexeme.label_staysOnLine))).bind
      fun _ _ sameKey => (expressions (.expression mode)).trees.bind fun _ _ same =>
        Alike.pure (likeness.view_pairNode sameKey (by simp [same]))
  exact labelled.orElse (expressions (.expression mode)).trees

theorem bracketed {opening closer : String} (opens : Lexeme.IsInLine opening)
    (closes : Lexeme.IsInLine closer) :
    Alike likeness.near likeness.near (Prod.map likeness.view likeness.view)
      (Matcher.bracketed rules opening closer) (Matcher.bracketed others opening closer) :=
  (likeness.punctuation opens (by decide)).bind fun _ _ sameBracket =>
    (likeness.trailedItemList (likeness.argument expressions .argument) likeness.comma).bind
      fun _ _ sameArguments =>
        (likeness.closing (by decide) (likeness.punctuation closes (by decide))).bind
          fun _ _ noted => Alike.pure (by
            rw [Prod.map_apply, Prod.map_apply, sameBracket,
              likeness.view_appendComments sameArguments noted])

theorem methodDefinition :
    likeness.Trees (Matcher.methodDefinition rules) (Matcher.methodDefinition others) := by
  have parenthesized : likeness.Trees (Matcher.parenthesizedParameters rules)
      (Matcher.parenthesizedParameters others) :=
    (likeness.onSameLine (likeness.punctuation (by decide) (by decide))).bind fun _ _ _ =>
      (likeness.optionalItemList (likeness.parameter (expressions (.expression .argument)).trees)
        likeness.comma).bind fun _ _ sameParameters =>
          (likeness.closing (by decide) (likeness.punctuation (by decide) (by decide))).bind
            fun _ _ noted => Alike.pure (likeness.view_appendComments sameParameters noted)
  have bare : likeness.Trees (Matcher.bareParameters rules) (Matcher.bareParameters others) :=
    (likeness.sharesWord.scan Lexeme.parameterStart_staysOnLine).bind fun _ _ _ =>
      likeness.itemList (likeness.parameter (expressions (.expression .command)).trees)
        likeness.commaOnSameLine
  exact likeness.definition (by decide) (likeness.definedName.bind fun _ _ sameName =>
    (likeness.orEmpty (parenthesized.orElse bare)).bind fun _ _ sameParameters =>
      (likeness.bodyUpToEnd expressions).bind fun _ _ same =>
        Alike.pure (by simp [sameName, sameParameters, same]))

theorem classDefinition :
    likeness.Trees (Matcher.classDefinition rules) (Matcher.classDefinition others) := by
  have singleton : likeness.Lists (Matcher.singletonTarget rules)
      (Matcher.singletonTarget others) := by
    refine (Operands.trees (likeness.spaced (likeness.punctuation (by decide) (by decide)))).bind
      fun _ _ sameShift => (expressions .operand).trees.bind fun target another same =>
        Alike.pure ?_
    have targets : [target].map likeness.view = [another].map likeness.view := by simp [same]
    rw [List.map_singleton, List.map_singleton, likeness.view_withChildren sameShift targets]
  have parent : likeness.Trees (Matcher.parentClass rules) (Matcher.parentClass others) :=
    (Operands.trees (likeness.spaced (likeness.punctuation (by decide) (by decide)))).bind
      fun _ _ sameSign => (expressions .operand).trees.bind fun _ _ same =>
        Alike.pure (likeness.view_withComments same (likeness.notes_comments sameSign))
  have header : likeness.Lists (Matcher.classHeader rules) (Matcher.classHeader others) :=
    (expressions .operand).trees.bind fun _ _ sameName =>
      (likeness.orEmpty parent).bind fun _ _ same => Alike.pure (by simp [sameName, same])
  exact likeness.definition (by decide) ((singleton.orElse header).bind fun _ _ sameHeader =>
    (likeness.bodyUpToEnd expressions).bind fun _ _ same =>
      Alike.pure (by simp [sameHeader, same]))

theorem moduleDefinition :
    likeness.Trees (Matcher.moduleDefinition rules) (Matcher.moduleDefinition others) :=
  likeness.definition (by decide) ((expressions .operand).trees.bind fun _ _ sameName =>
    (likeness.bodyUpToEnd expressions).bind fun _ _ same => Alike.pure (by simp [sameName, same]))

theorem primary : likeness.Operands (Matcher.primary rules) (Matcher.primary others) := by
  have group : likeness.Trees (Matcher.group rules) (Matcher.group others) :=
    (likeness.punctuation (by decide) (by decide)).bind fun _ _ sameOpening =>
      (likeness.bodyUpTo expressions
        (likeness.closing (by decide) (likeness.punctuation (by decide) (by decide)))).bind
          fun _ _ same => Alike.pure
            (likeness.view_withChildren (likeness.view_retag sameOpening _) (by simp [same]))
  have containers {opening closer : String} (opens : Lexeme.IsInLine opening)
      (closes : Lexeme.IsInLine closer) : likeness.Trees
        (Matcher.container rules opening closer) (Matcher.container others opening closer) := by
    refine (likeness.bracketed expressions opens closes).bind fun _ _ same => Alike.pure ?_
    obtain ⟨sameBracket, sameElements⟩ := Prod.mk.inj same
    exact likeness.view_withChildren sameBracket (by simp [sameElements])
  exact likeness.spaced ((likeness.methodDefinition expressions).firstOfCons
    ((likeness.classDefinition expressions).firstOfCons
    ((likeness.moduleDefinition expressions).firstOfCons
    (likeness.aliasDefinition.firstOfCons
    ((likeness.terminal Lexeme.number_staysOnLine).firstOfCons
    ((likeness.terminal Lexeme.symbol_staysOnLine).firstOfCons
    ((likeness.terminal Lexeme.globalVariable_staysOnLine).firstOfCons
    ((likeness.terminal Lexeme.instanceVariable_staysOnLine).firstOfCons
    ((likeness.terminal Lexeme.regexp_staysOnLine).firstOfCons
    ((likeness.terminal Lexeme.identifier_staysOnLine).firstOfCons
    (group.firstOfCons
    ((containers (by decide) (by decide)).firstOfCons
    ((containers (by decide) (by decide)).firstOfCons Alike.firstOfNil)))))))))))))

theorem suffix : Alike likeness.near likeness.near (Suffix.map likeness.view)
    (Matcher.suffix rules) (Matcher.suffix others) := by
  have brackets {opening closer : String} (tag : String) (opens : Lexeme.IsInLine opening)
      (closes : Lexeme.IsInLine closer) :
      Alike likeness.near likeness.near (Suffix.map likeness.view)
        (Matcher.bracketSuffix rules tag opening closer)
        (Matcher.bracketSuffix others tag opening closer) := by
    refine (likeness.bracketed expressions opens closes).bind fun _ _ same => Alike.pure ?_
    obtain ⟨sameBracket, sameArguments⟩ := Prod.mk.inj same
    rw [Suffix.map, Suffix.map, likeness.view_retag sameBracket, sameArguments]
  have member : Alike likeness.near likeness.near (Suffix.map likeness.view)
      Matcher.memberSuffix Matcher.memberSuffix :=
    ((likeness.spaced likeness.dot).mono likeness.far_of_near id).bind fun _ _ sameDot =>
      (likeness.terminal Lexeme.methodName_staysOnLine).afterSkip.bind fun _ _ same =>
        Alike.pure (by rw [Suffix.map, Suffix.map, sameDot, same])
  have scope : Alike likeness.near likeness.near (Suffix.map likeness.view)
      Matcher.scopeSuffix Matcher.scopeSuffix :=
    (likeness.punctuation (by decide) (by decide)).bind fun _ _ sameColons =>
      (likeness.terminal Lexeme.methodName_staysOnLine).bind fun _ _ same =>
        Alike.pure (by rw [Suffix.map, Suffix.map, sameColons, same])
  have bars : likeness.Trees Matcher.bar Matcher.bar :=
    likeness.punctuationBehind "|" (by decide)
  have parameters : likeness.Trees (Matcher.blockParameters rules)
      (Matcher.blockParameters others) :=
    bars.bind fun _ _ _ => (likeness.optionalItemList
      (likeness.parameter (expressions .operand).trees) likeness.comma).bind
        fun _ _ same => bars.bind fun _ _ _ => Alike.pure same
  have braces : likeness.Trees (Matcher.braceBlock rules) (Matcher.braceBlock others) :=
    (likeness.punctuation (by decide) (by decide)).bind fun _ _ sameBrace =>
      (likeness.orEmpty parameters).bind fun _ _ sameParameters =>
        (likeness.bodyUpTo expressions
          (likeness.closing (by decide) (likeness.punctuation (by decide) (by decide)))).bind
            fun _ _ same => Alike.pure (likeness.view_withChildren
              (likeness.view_retag sameBrace _) (by simp [sameParameters, same]))
  have block : Alike likeness.near likeness.near (Suffix.map likeness.view)
      (Matcher.blockSuffix rules) (Matcher.blockSuffix others) :=
    (likeness.onSameLine braces).bind fun _ _ same =>
      Alike.pure (by rw [Suffix.map, Suffix.map, same])
  exact (brackets _ (by decide) (by decide)).firstOfCons
    ((brackets _ (by decide) (by decide)).firstOfCons
      (member.firstOfCons (scope.firstOfCons (block.firstOfCons Alike.firstOfNil))))

theorem operand : likeness.Operands (Matcher.operand rules) (Matcher.operand others) :=
  (likeness.primary expressions).bind fun _ _ sameFirst =>
    (likeness.suffix expressions).many.bind fun _ _ same => Alike.pure (by
      rw [likeness.keepsShape.attachAll, likeness.keepsShape.attachAll, sameFirst, same])

theorem commandCall :
    likeness.Operands (Matcher.commandCall rules) (Matcher.commandCall others) :=
  (likeness.operand expressions).bind fun _ _ sameCallee =>
    (likeness.commandStart.bind fun _ _ _ =>
      likeness.itemList (likeness.argument expressions .command)
        likeness.commaOnSameLine).bindOptional (Alike.pure sameCallee) fun _ _ same =>
          Alike.pure (likeness.view_inj.mpr ⟨rfl, by simp [sameCallee, same], rfl⟩)

theorem prefixed (mode : Mode) : likeness.Operands
    (Matcher.prefixed .standard rules mode) (Matcher.prefixed .standard others mode) := by
  refine (likeness.spaced (likeness.terminal (Lexeme.oneOf_staysOnLine
    (usable_standard.context mode).hasPrefix (Matcher.prefixSpellings_solid mode)))).bind
      fun operator other sameOperator => (expressions (.expression mode)).trees.bind
        fun last another sameLast => Alike.ofReduction fun value result reduced reducedToo => ?_
  have mapped := likeness.keepsShape.reduceAs reduced
  have mappedToo := likeness.keepsShape.reduceAs reducedToo
  rw [sameOperator, sameLast, (likeness.view_inj.mp sameOperator).1] at mapped
  exact Except.ok.inj (mapped.symm.trans mappedToo)

theorem chainOperand (mode : Mode) : likeness.Operands
    (Matcher.chainOperand .standard rules mode) (Matcher.chainOperand .standard others mode) := by
  have plain : likeness.Operands (Matcher.plainOperand rules mode)
      (Matcher.plainOperand others mode) := by
    cases mode with
    | statement => exact likeness.commandCall expressions
    | argument => exact likeness.operand expressions
    | command => exact likeness.operand expressions
  exact (likeness.prefixed expressions mode).orElse plain

theorem chainLink (mode : Mode) : Alike likeness.near likeness.far (ChainLink.map likeness.view)
    (Matcher.chainLink .standard rules mode) (Matcher.chainLink .standard others mode) := by
  have before {matcher : Matcher Node} (first : likeness.Trees matcher matcher) :
      likeness.Trees (Matcher.beforeOperator mode matcher)
        (Matcher.beforeOperator mode matcher) := by
    cases mode with
    | statement => exact likeness.onSameLine first
    | argument => exact Operands.trees (likeness.spaced first)
    | command => exact likeness.onSameLine first
  have links {matcher : Matcher Node}
      (operator : Alike likeness.near likeness.far likeness.view
        (Matcher.beforeOperator mode matcher) (Matcher.beforeOperator mode matcher)) :
      Alike likeness.near likeness.far (ChainLink.map likeness.view)
        (Matcher.operatorLink mode matcher) (Matcher.operatorLink mode matcher) :=
    operator.bind fun _ _ same => Alike.pure (by rw [ChainLink.map, ChainLink.map, same])
  have nearLinks {matcher : Matcher Node} (first : likeness.Trees matcher matcher) :
      Alike likeness.near likeness.far (ChainLink.map likeness.view)
        (Matcher.operatorLink mode matcher) (Matcher.operatorLink mode matcher) :=
    links ((before first).mono id likeness.far_of_near)
  have infixSpelling : Lexeme.StaysOnLine
      (Lexeme.oneOf (OperatorTables.standard.of mode).infixSpellings) :=
    Lexeme.oneOf_staysOnLine (usable_standard.context mode).hasInfix (infixSpellings_solid mode)
  have infixes : Alike likeness.near likeness.far (ChainLink.map likeness.view)
      (Matcher.operatorLink mode (Matcher.terminal
        (.oneOf (OperatorTables.standard.of mode).infixSpellings "operator")))
      (Matcher.operatorLink mode (Matcher.terminal
        (.oneOf (OperatorTables.standard.of mode).infixSpellings "operator"))) :=
    nearLinks (likeness.terminal infixSpelling)
  have conditional : Alike likeness.near likeness.far (ChainLink.map likeness.view)
      (Matcher.conditionalLink rules mode) (Matcher.conditionalLink others mode) := by
    refine (before (likeness.punctuation (by decide) (by decide))).bind fun _ _ sameQuestion =>
      (expressions (.expression .argument)).trees.bind fun _ _ sameMiddle =>
        (Operands.trees (likeness.spaced (likeness.punctuation (by decide) (by decide)))).bind
          fun _ _ same => (Alike.pure ?_).mono id likeness.far_of_near
    rw [ChainLink.map, ChainLink.map, sameQuestion,
      likeness.view_appendComments sameMiddle (likeness.notes_comments same)]
  cases mode with
  | statement =>
      exact infixes.firstOfCons (conditional.firstOfCons
        ((nearLinks (likeness.punctuation (by decide) (by decide))).firstOfCons
          ((links likeness.separator).firstOfCons Alike.firstOfNil)))
  | argument => exact infixes.firstOfCons (conditional.firstOfCons Alike.firstOfNil)
  | command => exact infixes.firstOfCons (conditional.firstOfCons Alike.firstOfNil)

theorem chainStep (mode : Mode) :
    Alike likeness.near likeness.near (Prod.map (ChainLink.map likeness.view) likeness.view)
      (Matcher.chainStep .standard rules mode) (Matcher.chainStep .standard others mode) :=
  (likeness.chainLink expressions mode).bind fun _ _ sameLink =>
    (likeness.chainOperand expressions mode).bind fun _ _ same =>
      Alike.pure (by rw [Prod.map_apply, Prod.map_apply, sameLink, same])

theorem production (reference : Rule) : likeness.Operands
    (Matcher.production .standard rules reference)
    (Matcher.production .standard others reference) := by
  cases reference with
  | operand => exact likeness.operand expressions
  | expression mode =>
      refine (likeness.chainOperand expressions mode).bind fun _ _ sameFirst =>
        (likeness.chainStep expressions mode).many.bind fun _ _ sameLinks =>
          Alike.ofReduction fun _ _ reduced reducedToo => ?_
      have mapped := likeness.keepsShape.reduceChain reduced
      have mappedToo := likeness.keepsShape.reduceChain reducedToo
      rw [sameFirst, sameLinks] at mapped
      exact Except.ok.inj (mapped.symm.trans mappedToo)

end

/-- Rules read alike however deep each of them may nest. -/
theorem ruleWithin (depth deeper : Nat) (reference : Rule) : likeness.Operands
    (Matcher.ruleWithin .standard depth reference)
    (Matcher.ruleWithin .standard deeper reference) := by
  induction depth generalizing deeper reference with
  | zero => exact Alike.abort
  | succ depth ih =>
      cases deeper with
      | zero => exact Alike.abortToo
      | succ deeper => exact likeness.production (ih deeper) reference

theorem rule (reference : Rule) : likeness.Operands
    (Matcher.rule .standard reference) (Matcher.rule .standard reference) :=
  fun _ _ alike => likeness.ruleWithin _ _ reference alike

theorem program : likeness.Trees (Matcher.program .standard) (Matcher.program .standard) :=
  (likeness.body likeness.rule).bind fun _ _ sameRoot =>
    ((likeness.commentsBefore .gap (by decide)).mono likeness.far_of_near id).bind
      fun _ _ noted => likeness.endOfInput.afterSkip.bind fun _ _ _ =>
        Alike.pure (likeness.view_appendComments sameRoot noted)

/-- Two texts that start alike are both programs with trees that look the same, or neither of
them is a program. -/
theorem parse_alike {first second : List Char}
    (start : likeness.near (Cursor.ofText first) (Cursor.ofText second)) :
    (∃ root other, parse .standard first = .ok (root.located (.ofText first)) ∧
      parse .standard second = .ok (other.located (.ofText second)) ∧
        likeness.view root = likeness.view other) ∨
    ∃ error endOffset otherError otherEnd,
      parse .standard first = .error (.mismatch error endOffset) ∧
        parse .standard second = .error (.mismatch otherError otherEnd) := by
  have run := likeness.program start
  have halts (text : List Char) (fault : Fault) :
      Matcher.program .standard (Cursor.ofText text) ≠ .aborted fault :=
    (Matcher.Consumes.program usable_standard).ne_aborted (Nat.lt_succ_self _) fault
  cases outcome : Matcher.program .standard (Cursor.ofText first) with
  | aborted fault => exact absurd outcome (halts first fault)
  | matched root next trace =>
      cases outcomeToo : Matcher.program .standard (Cursor.ofText second) with
      | aborted fault => exact absurd outcomeToo (halts second fault)
      | failed more =>
          rw [outcome, outcomeToo] at run
          cases run
      | matched other onward more =>
          rw [outcome, outcomeToo] at run
          cases run with
          | matched same _ =>
              refine Or.inl ⟨root, other, ?_, ?_, same⟩
              · rw [parse, parseAfter_of_matched outcome, Node.resolve_eq_located]
              · rw [parse, parseAfter_of_matched outcomeToo, Node.resolve_eq_located]
  | failed trace =>
      cases outcomeToo : Matcher.program .standard (Cursor.ofText second) with
      | aborted fault => exact absurd outcomeToo (halts second fault)
      | matched other onward more =>
          rw [outcome, outcomeToo] at run
          cases run
      | failed more =>
          exact Or.inr ⟨_, _, _, _, parseAfter_of_failed outcome, parseAfter_of_failed outcomeToo⟩

end Likeness

end RubySyntax
