import RubySyntax.Proofs.TokenReading

/-!
# Layouts of arguments and parameters

The items of a list lie one behind the other with the commas between them, and
so does what stands between two brackets.  Each production is taken apart into
its tokens, and the layouts of what it refers to are put together again.
-/

namespace RubySyntax

theorem isVacant_listNode_nil (offset : Nat) :
    IsVacant Tag.list offset (Matcher.listNode offset []) :=
  ⟨rfl, rfl, rfl, rfl⟩

theorem childFollows_joinedParts (separator : List Part) (count : Nat) (first : Node)
    (others : List Node) : ChildFollows (joinedParts separator count) (first :: others) := by
  cases count <;> trivial

/-- Items with commas between them make a list. -/
theorem Laid.listNode {text : List Char} {start stop count offset : Nat} {items : List Node}
    (laid : Laid text start (.parts (joinedParts [.dropped ","] count) items) stop) :
    Laid text start (.tree (Matcher.listNode offset items)) stop ∧ start < stop := by
  have whole := laid
  have begins : ∃ parts, joinedParts [.dropped ","] count = .child :: parts := by
    cases count <;> exact ⟨_, rfl⟩
  obtain ⟨parts, parts_eq⟩ := begins
  rw [parts_eq] at laid
  cases laid with
  | child spacing tree filled rest =>
      obtain ⟨place, offset_eq, after, -, before⟩ := tree.offset_bounds
      have spacingLe := spacing.le
      have onward := rest.bounds
      have placeBefore := before filled
      refine ⟨?_, by omega⟩
      refine Laid.bare (.list count) rfl
        offset_eq (by omega) (by omega) ?_ whole
      exact fun invoke => absurd (show Tag.list = Tag.invoke from invoke) (by decide)

namespace Matcher

variable {text : List Char}

/-- What a matcher reads is a tree that lies right where it was read. -/
def ReadsTrees (text : List Char) (matcher : Matcher Node) : Prop :=
  ∀ ⦃start : Nat⦄ ⦃node : Node⦄ ⦃next : Cursor⦄, start ≤ text.length →
    matcher.Reads (Cursor.within text start) node next →
      ∃ stop, next = Cursor.within text stop ∧ start < stop ∧ Laid text start (.tree node) stop

theorem ReadsTrees.orElse {first second : Matcher Node} (firstTrees : ReadsTrees text first)
    (secondTrees : ReadsTrees text second) : ReadsTrees text (first.orElse second) := by
  intro start node next inside reads
  rcases reads_orElse.mp reads with first | ⟨-, second⟩
  · exact firstTrees inside first
  · exact secondTrees inside second

theorem ReadsTrees.firstOf {matchers : List (Matcher Node)}
    (each : ∀ matcher ∈ matchers, ReadsTrees text matcher) : ReadsTrees text (firstOf matchers) := by
  intro start node next inside reads
  obtain ⟨matcher, member, reads⟩ := reads.mem_firstOf
  exact each matcher member inside reads

theorem ReadsBegins.trees {matcher : Matcher Node} (begins : ReadsBegins text matcher) :
    ReadsTrees text matcher := by
  intro start node next inside reads
  obtain ⟨stop, rfl, begun⟩ := begins inside reads
  have laid := begun.laid (.spacing (.refl inside))
  rw [Node.withComments_nil] at laid
  exact ⟨stop, rfl, begun.lt, laid⟩

/-- A tree behind blanks and comments keeps the comments. -/
theorem ReadsBegins.spaced {matcher : Matcher Node} (begins : ReadsBegins text matcher) :
    ReadsTrees text (spaced matcher) := by
  intro start node next inside reads
  obtain ⟨comments, place, inner, run, innerRead, rfl⟩ :=
    reads_spaced (Or.inl rfl) (fun placeWithin innerRead => by
      obtain ⟨stop, -, begun⟩ := begins placeWithin innerRead
      exact begun.getElem?_ne_semicolon) inside reads
  obtain ⟨stop, rfl, begun⟩ := begins run.bounds.2 innerRead
  have := run.bounds
  have := begun.lt
  exact ⟨stop, rfl, by omega, begun.laid (.run run)⟩

/-! ### Lists -/

/-- Items with a comma in front of each lie behind a first one along the parts of a list. -/
private theorem separated_of_each {item separator : Matcher Node} (items : ReadsTrees text item)
    (commas : ReadsDropped text "," separator) {cursor last : Cursor} {others : List Node}
    (each : ReadsEach (do let _ ← separator; item) cursor others last) :
    ∀ {start middle : Nat} {first : Node}, Laid text start (.tree first) middle →
      start < middle → cursor = Cursor.within text middle →
        ∃ stop count, last = Cursor.within text stop ∧
          Laid text start (.parts (joinedParts [.dropped ","] count) (first :: others)) stop := by
  induction each with
  | nil =>
      intro start middle first laid filled here
      have bounds := laid.bounds
      exact ⟨middle, 0, here, .child (.refl (by omega)) laid filled (.nil bounds.2)⟩
  | cons head tail ih =>
      intro start middle first laid filled here
      subst here
      have bounds := laid.bounds
      obtain ⟨comma, behind, commaRead, itemRead⟩ := reads_bind.mp head
      obtain ⟨place, spacing, spelled, rfl⟩ := commas bounds.2 commaRead
      have commaWithin := spelled.bound spacing.within
      obtain ⟨stop, rfl, nextFilled, nextLaid⟩ := items commaWithin itemRead
      obtain ⟨last, count, last_eq, rest⟩ := ih nextLaid nextFilled rfl
      refine ⟨last, count + 1, last_eq, ?_⟩
      exact .child (.refl (by omega)) laid filled (.dropped (by decide) spacing spelled
        (childFollows_joinedParts _ _ _ _) rest)

/-- Separated items lie along their parts: each item but the last with a comma behind it. -/
theorem reads_separated {item separator : Matcher Node} (items : ReadsTrees text item)
    (commas : ReadsDropped text "," separator) {start : Nat} {nodes : List Node} {next : Cursor}
    (inside : start ≤ text.length)
    (reads : (separated item separator).Reads (Cursor.within text start) nodes next) :
    ∃ stop count, next = Cursor.within text stop ∧
      Laid text start (.parts (joinedParts [.dropped ","] count) nodes) stop := by
  obtain ⟨first, middle, firstRead, reads⟩ := reads_bind.mp reads
  obtain ⟨others, last, othersRead, reads⟩ := reads_bind.mp reads
  obtain ⟨rfl, rfl⟩ := reads_pure.mp reads
  obtain ⟨stop, rfl, filled, laid⟩ := items inside firstRead
  exact separated_of_each items commas othersRead.each_of_many laid filled rfl

theorem itemList_readsTrees {item separator : Matcher Node} (items : ReadsTrees text item)
    (commas : ReadsDropped text "," separator) : ReadsTrees text (itemList item separator) := by
  intro start node next inside reads
  obtain ⟨offset, middle, hereRead, reads⟩ := reads_bind.mp reads
  obtain ⟨rfl, rfl⟩ := reads_here.mp hereRead
  obtain ⟨nodes, last, nodesRead, reads⟩ := reads_bind.mp reads
  obtain ⟨rfl, rfl⟩ := reads_pure.mp reads
  obtain ⟨stop, count, rfl, laid⟩ := reads_separated items commas inside nodesRead
  obtain ⟨listLaid, filled⟩ := laid.listNode
  exact ⟨stop, rfl, filled, listLaid⟩

theorem data_eq_of_reads_itemList {item separator : Matcher Node} {cursor next : Cursor}
    {node : Node} (reads : (itemList item separator).Reads cursor node next) :
    node.data = Tag.list := by
  obtain ⟨offset, middle, hereRead, reads⟩ := reads_bind.mp reads
  obtain ⟨nodes, last, nodesRead, reads⟩ := reads_bind.mp reads
  obtain ⟨rfl, rfl⟩ := reads_pure.mp reads
  rfl

/-- A list of any number of items lies where it was read, without items at a single offset. -/
theorem reads_optionalItemList {item separator : Matcher Node} (items : ReadsTrees text item)
    (commas : ReadsDropped text "," separator) {start : Nat} {node : Node} {next : Cursor}
    (inside : start ≤ text.length)
    (reads : (optionalItemList item separator).Reads (Cursor.within text start) node next) :
    ∃ stop, next = Cursor.within text stop ∧ node.data = Tag.list ∧
      Laid text start (.tree node) stop := by
  obtain ⟨offset, middle, hereRead, reads⟩ := reads_bind.mp reads
  obtain ⟨rfl, rfl⟩ := reads_here.mp hereRead
  obtain ⟨nodes?, last, nodesRead, reads⟩ := reads_bind.mp reads
  obtain ⟨rfl, rfl⟩ := reads_pure.mp reads
  rcases reads_optional.mp nodesRead with ⟨nodes, rfl, someRead⟩ | ⟨rfl, rfl, -⟩
  · obtain ⟨stop, count, rfl, laid⟩ := reads_separated items commas inside someRead
    exact ⟨stop, rfl, rfl, laid.listNode.1⟩
  · exact ⟨offset, rfl, rfl, .vacant inside (Or.inr rfl) (isVacant_listNode_nil offset)⟩

/-- A list whose last item a comma may follow. -/
theorem reads_trailedItemList {item : Matcher Node} (items : ReadsTrees text item) {start : Nat}
    {node : Node} {next : Cursor} (inside : start ≤ text.length)
    (reads : (trailedItemList item comma).Reads (Cursor.within text start) node next) :
    ∃ stop after, next = Cursor.within text after ∧ node.data = Tag.list ∧
      Laid text start (.tree node) stop ∧ TrailingComma text stop after := by
  obtain ⟨offset, middle, hereRead, reads⟩ := reads_bind.mp reads
  obtain ⟨rfl, rfl⟩ := reads_here.mp hereRead
  obtain ⟨nodes?, last, nodesRead, reads⟩ := reads_bind.mp reads
  obtain ⟨rfl, rfl⟩ := reads_pure.mp reads
  rcases reads_optional.mp nodesRead with ⟨nodes, rfl, someRead⟩ | ⟨rfl, rfl, -⟩
  · obtain ⟨found, behind, foundRead, reads⟩ := reads_bind.mp someRead
    obtain ⟨comma?, final, commaRead, reads⟩ := reads_bind.mp reads
    obtain ⟨rfl, rfl⟩ := reads_pure.mp reads
    obtain ⟨stop, count, rfl, laid⟩ := reads_separated items comma_readsDropped inside foundRead
    obtain ⟨after, trailing, rfl⟩ := reads_trailingComma laid.bounds.2 commaRead
    exact ⟨stop, after, rfl, rfl, laid.listNode.1, trailing⟩
  · exact ⟨offset, offset, rfl, rfl, .vacant inside (Or.inr rfl) (isVacant_listNode_nil offset), .none⟩

/-! ### Labels with their values -/

/-- A label behind comments, with its colon. -/
theorem reads_spacedLabel {start : Nat} {key : Node} {next : Cursor}
    (inside : start ≤ text.length)
    (reads : (spaced (terminal .label)).Reads (Cursor.within text start) key next) :
    ∃ place, Laid text start (.tree key) place ∧ start < place ∧ Spelled text place ":" ∧
      key.offset.map (· + (key.data.length : Int)) = some (place : Int) ∧
        next = Cursor.within text (place + ":".length) := by
  obtain ⟨comments, place, inner, run, innerRead, rfl⟩ :=
    reads_spaced (Or.inl rfl) (fun placeWithin innerRead => by
      obtain ⟨token, -⟩ := reads_label placeWithin innerRead
      exact token.spelled.getElem?_ne_semicolon
        (Lexeme.startsSolid_of_startsOperand token.starts)) inside reads
  obtain ⟨token, comments_eq, colon, rfl⟩ := reads_label run.bounds.2 innerRead
  have begins : Begins text place inner (place + inner.data.length) := .leaf token comments_eq
  have runBounds := run.bounds
  have filled := begins.lt
  refine ⟨place + inner.data.length, begins.laid (.run run), by omega, colon, ?_, rfl⟩
  simp [Node.withComments, token.offset_eq]

/-- A label and what stands behind its colon make a pair. -/
theorem laid_pairNode {start place stop : Nat} {key : Node} {value : List Node}
    {parts : List Part} (form : LinkingForm Tag.pair ":" parts)
    (laid : Laid text start (.tree key) place) (filled : start < place)
    (spelled : Spelled text place ":")
    (offset_eq : key.offset.map (· + (key.data.length : Int)) = some (place : Int))
    (rest : Laid text (place + ":".length) (.parts parts value) stop) :
    Laid text start (.tree (pairNode key value)) stop :=
  .linking form rfl laid filled (.spacing (.refl laid.bounds.2)) offset_eq spelled rest

variable {rules : Rules}

theorem labelPair_readsTrees {mode : Mode} (values : ReadsTrees text (rules (.expression mode))) :
    ReadsTrees text (labelPair rules mode) := by
  intro start node next inside reads
  obtain ⟨key, middle, keyRead, reads⟩ := reads_bind.mp reads
  obtain ⟨value, last, valueRead, reads⟩ := reads_bind.mp reads
  obtain ⟨rfl, rfl⟩ := reads_pure.mp reads
  obtain ⟨place, keyLaid, filled, colon, offset_eq, rfl⟩ := reads_spacedLabel inside keyRead
  have colonWithin := colon.bound keyLaid.bounds.2
  obtain ⟨stop, rfl, valueFilled, valueLaid⟩ := values colonWithin valueRead
  refine ⟨stop, rfl, by omega, laid_pairNode .pair keyLaid filled colon offset_eq ?_⟩
  exact .child (.refl colonWithin) valueLaid valueFilled (.nil valueLaid.bounds.2)

theorem argument_readsTrees {mode : Mode} (values : ReadsTrees text (rules (.expression mode))) :
    ReadsTrees text (argument rules mode) :=
  (labelPair_readsTrees values).orElse values

/-! ### Brackets -/

theorem reads_closingBracket {symbol : String}
    (member : symbol ∈ closingWords) {start : Nat}
    {comments : List Node} {next : Cursor} (inside : start ≤ text.length)
    (reads : (closingBracket symbol).Reads (Cursor.within text start) comments next) :
    ∃ place, CommentRun text start comments place ∧ Spelled text place symbol ∧
      next = Cursor.within text (place + symbol.length) :=
  reads_closing (Or.inl rfl) punctuation_readsWord member inside reads

/-- Arguments between brackets lie behind the opening one and are closed by the other. -/
theorem reads_bracketed {opening closer : String}
    (values : ReadsTrees text (rules (.expression .argument)))
    (member : closer ∈ closingWords) {start : Nat}
    {bracket arguments : Node} {next : Cursor} (inside : start ≤ text.length)
    (reads : (bracketed rules opening closer).Reads (Cursor.within text start)
      (bracket, arguments) next) :
    ∃ stop, next = Cursor.within text stop ∧ IsToken text start opening bracket ∧
      Laid text (start + opening.length) (.parts [.closed Tag.list closer] [arguments]) stop := by
  obtain ⟨token, middle, tokenRead, reads⟩ := reads_bind.mp reads
  obtain ⟨list, behind, listRead, reads⟩ := reads_bind.mp reads
  obtain ⟨trailing, last, closerRead, reads⟩ := reads_bind.mp reads
  obtain ⟨equal, rfl⟩ := reads_pure.mp reads
  cases equal
  obtain ⟨isToken, rfl⟩ := punctuation_readsWord inside tokenRead
  have openWithin := isToken.spelled.bound inside
  obtain ⟨stop, after, rfl, list_eq, listLaid, comma⟩ :=
    reads_trailedItemList (argument_readsTrees values) openWithin listRead
  have listBounds := listLaid.bounds
  have commaBounds := comma.bounds listBounds.2
  obtain ⟨place, run, spelled, rfl⟩ := reads_closingBracket member commaBounds.2 closerRead
  refine ⟨_, rfl, isToken, ?_⟩
  exact .closed member (fun _ => list_eq) (.refl openWithin) listLaid comma run spelled
    (.nil (spelled.bound run.bounds.2))

/-! ### Parameters -/

theorem begins_ofToken {place stop : Nat} {node : Node} {spelling data : String}
    {parts : List Part} {children : List Node} (isToken : IsToken text place spelling node)
    (form : LeadingForm data spelling parts)
    (rest : Laid text (place + spelling.length) (.parts parts children) stop) :
    Begins text place ((node.retag data).withChildren children) stop :=
  .leading form isToken.comments_eq isToken.offset_eq isToken.spelled rest

theorem splatParameter_readsTrees : ReadsTrees text splatParameter := by
  intro start node next inside reads
  obtain ⟨operator, middle, operatorRead, reads⟩ := reads_bind.mp reads
  obtain ⟨name, last, nameRead, reads⟩ := reads_bind.mp reads
  obtain ⟨rfl, rfl⟩ := reads_pure.mp reads
  have splats : ∀ word ∈ ["**", "*", "&"], word ∈ leadingOperators ∧
      startsWithChar (· != ';') word.toList = true := by
    decide
  obtain ⟨comments, place, token, run, tokenRead, rfl⟩ :=
    reads_spaced (Or.inl rfl) (fun placeWithin tokenRead => by
      obtain ⟨word, member, isToken, -⟩ := reads_oneOf (by simp) placeWithin tokenRead
      exact isToken.spelled.getElem?_ne_semicolon (splats word member).2) inside operatorRead
  have runBounds := run.bounds
  obtain ⟨word, member, isToken, rfl⟩ := reads_oneOf (by simp) runBounds.2 tokenRead
  have wordWithin := isToken.spelled.bound runBounds.2
  obtain ⟨stop, rfl, filled, nameLaid⟩ := identifier_readsBegins.trees wordWithin nameRead
  have form : LeadingForm token.data word [.child] := by
    rw [isToken.data_eq]
    exact .operator (splats word member).1
  refine ⟨stop, rfl, by omega, ?_⟩
  refine .leading form ?_ isToken.offset_eq isToken.spelled
    (.child (.refl wordWithin) nameLaid filled (.nil nameLaid.bounds.2))
  simpa [Node.withComments, Node.withChildren, isToken.comments_eq] using Lead.run run

theorem labelParameter_readsTrees {default : Matcher Node} (defaults : ReadsTrees text default) :
    ReadsTrees text (labelParameter default) := by
  intro start node next inside reads
  obtain ⟨key, middle, keyRead, reads⟩ := reads_bind.mp reads
  obtain ⟨value?, last, valueRead, reads⟩ := reads_bind.mp reads
  obtain ⟨rfl, rfl⟩ := reads_pure.mp reads
  obtain ⟨place, keyLaid, filled, colon, offset_eq, rfl⟩ := reads_spacedLabel inside keyRead
  have colonWithin := colon.bound keyLaid.bounds.2
  rcases reads_optional.mp valueRead with ⟨value, rfl, someRead⟩ | ⟨rfl, rfl, -⟩
  · obtain ⟨_, behind, scanRead, someRead⟩ := reads_bind.mp someRead
    obtain ⟨length, scanned, rfl⟩ := reads_scan.mp scanRead
    have gaps := Lexeme.sameLineValue_spacingPrefix scanned
    rw [Cursor.rest_within] at gaps
    have spacing := gaps.spacing colonWithin
    have spacingBounds := spacing.le
    rw [Cursor.advance_within spacing.within] at someRead
    obtain ⟨stop, rfl, valueFilled, valueLaid⟩ := defaults spacing.within someRead
    refine ⟨stop, rfl, by omega, laid_pairNode .pair keyLaid filled colon offset_eq ?_⟩
    exact .child spacing valueLaid valueFilled (.nil valueLaid.bounds.2)
  · refine ⟨_, rfl, by omega, laid_pairNode .label keyLaid filled colon offset_eq ?_⟩
    exact .nil colonWithin

theorem namedParameter_readsTrees {default : Matcher Node} (defaults : ReadsTrees text default) :
    ReadsTrees text (namedParameter default) := by
  intro start node next inside reads
  obtain ⟨name, middle, nameRead, reads⟩ := reads_bind.mp reads
  obtain ⟨place, rfl, filled, nameLaid⟩ := identifier_readsBegins.spaced inside nameRead
  have nameBounds := nameLaid.bounds
  obtain ⟨default?, last, defaultRead, reads⟩ := reads_bind.mp reads
  rcases reads_optional.mp defaultRead with ⟨⟨equals, value⟩, rfl, someRead⟩ | ⟨rfl, rfl, -⟩
  · obtain ⟨rfl, rfl⟩ := reads_pure.mp reads
    obtain ⟨sign, behind, signRead, someRead⟩ := reads_bind.mp someRead
    obtain ⟨given, final, valueRead, someRead⟩ := reads_bind.mp someRead
    obtain ⟨equal, rfl⟩ := reads_pure.mp someRead
    cases equal
    obtain ⟨signPlace, spacing, signRead⟩ := reads_afterSkip_within nameBounds.2 signRead
    have spacingLe := spacing.le
    obtain ⟨isToken, rfl⟩ := punctuation_readsWord spacing.within signRead
    have signWithin := isToken.spelled.bound spacing.within
    obtain ⟨stop, rfl, valueFilled, valueLaid⟩ := defaults signWithin valueRead
    refine ⟨stop, rfl, by omega, ?_⟩
    have form : LinkingForm equals.data "=" [.child] := by
      rw [isToken.data_eq]
      exact .operator (by decide)
    refine .linking form rfl nameLaid filled ?_ isToken.offset_eq
      isToken.spelled (.child (.refl signWithin) valueLaid valueFilled (.nil valueLaid.bounds.2))
    simpa [Node.withChildren, isToken.comments_eq] using Lead.spacing spacing
  · obtain ⟨rfl, rfl⟩ := reads_pure.mp reads
    exact ⟨place, rfl, filled, nameLaid⟩

theorem parameter_readsTrees {default : Matcher Node} (defaults : ReadsTrees text default) :
    ReadsTrees text (parameter default) := by
  refine ReadsTrees.firstOf fun matcher member => ?_
  simp only [List.mem_cons, List.not_mem_nil, or_false] at member
  rcases member with rfl | rfl | rfl
  · exact splatParameter_readsTrees
  · exact labelParameter_readsTrees defaults
  · exact namedParameter_readsTrees defaults

end Matcher

end RubySyntax
