import RubySyntax.Proofs.CommentRun

/-!
# Layouts of trees

A layout says how a tree lies in its source text: which characters spell each
token, where its comments stand and which tokens leave no node behind.  It is an
inductive relation between a tree and the two offsets at its ends, with one
short list of forms for all composite nodes.  The grammar reads only trees that
have a layout, and the layout gives where the tokens of a tree stand, that no two
of them overlap, what lies between them and which token each comment stands in
front of.
-/

namespace RubySyntax

/-! ### Tokens -/

/-- A word stands at a place of the text. -/
def Spelled (text : List Char) (place : Nat) (word : String) : Prop :=
  word.toList <+: text.drop place

/-- A leaf whose data stands at a place of the text.  Only regular expressions hold a number
sign. -/
structure LeafToken (text : List Char) (place : Nat) (node : Node) : Prop where
  children_eq : node.children = []
  offset_eq : node.offset = some (place : Int)
  spelled : Spelled text place node.data
  starts : Lexeme.startsOperand node.data.toList = true
  regexp_of_sign : '#' ∈ node.data.toList →
    Lexeme.regexp node.data.toList = some node.data.length

/-- The comments in front of a token, or mere spacing. -/
inductive Lead (text : List Char) : Nat → List Node → Nat → Prop
  | run {start place : Nat} {comments : List Node} (run : CommentRun text start comments place) :
      Lead text start comments place
  | spacing {start place : Nat} (spacing : Spacing text start place) : Lead text start [] place

theorem Spelled.bound {text : List Char} {place : Nat} {word : String}
    (spelled : Spelled text place word) (inside : place ≤ text.length) :
    place + word.length ≤ text.length := by
  have length_le := List.IsPrefix.length_le spelled
  rw [String.length_toList, List.length_drop] at length_le
  omega

theorem Spelled.getElem? {text : List Char} {place : Nat} {word : String}
    (spelled : Spelled text place word) {index : Nat} (inside : index < word.length) :
    text[place + index]? = word.toList[index]? := by
  obtain ⟨back, equal⟩ := spelled
  rw [← List.getElem?_drop, ← equal, List.getElem?_append_left]
  rwa [String.length_toList]

theorem LeafToken.length_pos {text : List Char} {place : Nat} {node : Node}
    (token : LeafToken text place node) : 0 < node.data.length := by
  obtain ⟨character, rest, equal, -⟩ := Lexeme.startsOperand_eq_true token.starts
  rw [← String.length_toList, equal]
  exact Nat.succ_pos _

theorem Lead.bounds {text : List Char} {start place : Nat} {comments : List Node}
    (lead : Lead text start comments place) : start ≤ place ∧ place ≤ text.length := by
  cases lead with
  | run run => exact run.bounds
  | spacing spacing => exact ⟨spacing.le, spacing.within⟩

/-! ### Forms -/

/-- A piece of the concrete form of a node, apart from its own token. -/
inductive Part where
  /-- A child. -/
  | child
  /-- A child that the source leaves out. -/
  | absent
  /-- An empty list that stands for arguments nobody wrote. -/
  | vacant
  /-- A child, the comments behind it that it keeps, and the word that closes it.  What stands
  for a child that is left out has the given tag. -/
  | closed (tag closer : String)
  /-- A list that a closing word might follow, but does not. -/
  | unclosed (closer : String)
  /-- A less-than sign whose comments go to the child behind it, and that child. -/
  | opened
  /-- A token that leaves no node behind. -/
  | dropped (symbol : String)
deriving DecidableEq

/-- The words that close a child and have the comments in front of them kept by it. -/
def closingWords : List String :=
  [")", "]", "\x7d", "end", "|", ":"]

/-- The symbols that leave no node behind and have no comments in front of them. -/
def droppedSymbols : List String :=
  [",", "(", "|"]

/-- The spellings of operators that stand in front of their only child. -/
def leadingOperators : List String :=
  ["!", "~", "+", "-", "*", "**", "&", "defined?", "not", "<<"]

/-- The spellings of operators that stand behind their first child. -/
def linkingOperators : List String :=
  ["**", "*", "/", "%", "+", "-", "<<", ">>", "&", "|", "^", ">", ">=", "<", "<=", "<=>", "==",
    "===", "!=", "=~", "!~", "&&", "||", "..", "...", "rescue", "=", "+=", "-=", "*=", "/=",
    "%=", "**=", "<<=", ">>=", "&&=", "||=", "&=", "|=", "^=", "and", "or", "if", "unless",
    "while", "until", "=>", ".", "&.", "::"]

/-- One or more children with the same parts between each two. -/
def joinedParts (separator : List Part) : Nat → List Part
  | 0 => [.child]
  | count + 1 => .child :: (separator ++ joinedParts separator count)

/-- The forms of nodes whose token comes first: tag, spelling of the token, parts behind it. -/
inductive LeadingForm : String → String → List Part → Prop
  | group : LeadingForm Tag.group "(" [.closed Tag.empty ")"]
  | array : LeadingForm "[" "[" [.closed Tag.list "]"]
  | hash : LeadingForm "\x7b" "\x7b" [.closed Tag.list "\x7d"]
  | block : LeadingForm Tag.block "\x7b" [.absent, .closed Tag.empty "\x7d"]
  | blockWithParameters :
      LeadingForm Tag.block "\x7b" [.dropped "|", .closed Tag.list "|", .closed Tag.empty "\x7d"]
  | method : LeadingForm "def" "def" [.child, .absent, .closed Tag.empty "end"]
  | methodWithBareParameters :
      LeadingForm "def" "def" [.child, .unclosed ")", .closed Tag.empty "end"]
  | methodWithParameters :
      LeadingForm "def" "def" [.child, .dropped "(", .closed Tag.list ")", .closed Tag.empty "end"]
  | singletonClass : LeadingForm "class" "class" [.child, .closed Tag.empty "end"]
  | rootClass : LeadingForm "class" "class" [.child, .absent, .closed Tag.empty "end"]
  | derivedClass : LeadingForm "class" "class" [.child, .opened, .closed Tag.empty "end"]
  | moduleDefinition : LeadingForm "module" "module" [.child, .closed Tag.empty "end"]
  | aliasDefinition : LeadingForm "alias" "alias" [.child, .child]
  | operator {symbol : String} (member : symbol ∈ leadingOperators) :
      LeadingForm symbol symbol [.child]

/-- The forms of nodes whose token stands behind the first child. -/
inductive LinkingForm : String → String → List Part → Prop
  | call : LinkingForm Tag.invoke "(" [.closed Tag.list ")"]
  | callWithBlock : LinkingForm Tag.invoke "(" [.closed Tag.list ")", .child]
  | index : LinkingForm Tag.index "[" [.closed Tag.list "]"]
  | operator {symbol : String} (member : symbol ∈ linkingOperators) :
      LinkingForm symbol symbol [.child]
  | label : LinkingForm Tag.pair ":" []
  | pair : LinkingForm Tag.pair ":" [.child]
  | conditional : LinkingForm "?" "?" [.closed Tag.empty ":", .child]

/-- The forms of nodes without a token of their own. -/
inductive BareForm : String → List Part → Prop
  | list (count : Nat) : BareForm Tag.list (joinedParts [.dropped ","] count)
  | sequence (count : Nat) : BareForm Tag.sequence (joinedParts [] (count + 1))
  | command : BareForm Tag.invoke [.child, .child]
  | blockCall : BareForm Tag.invoke [.child, .vacant, .child]

/-! ### Layouts -/

/-- A child comes next, along parts that begin with one. -/
def ChildFollows : List Part → List Node → Prop
  | .child :: _, _ :: _ => True
  | .closed _ _ :: _, _ :: _ => True
  | _, _ => False

theorem ChildFollows.ne_nil {parts : List Part} {children : List Node}
    (follows : ChildFollows parts children) : children ≠ [] := by
  rintro rfl
  rcases parts with _ | ⟨_ | _ | _ | _ | _ | _ | _, _⟩ <;> exact follows

theorem ChildFollows.append {parts : List Part} {children : List Node}
    (follows : ChildFollows parts children) (moreParts : List Part) (moreChildren : List Node) :
    ChildFollows (parts ++ moreParts) (children ++ moreChildren) := by
  cases children with
  | nil => exact (follows.ne_nil rfl).elim
  | cons child children =>
      rcases parts with _ | ⟨_ | _ | _ | _ | _ | _ | _, _⟩ <;>
        first | exact follows.elim | exact trivial

/-- What has a layout: a tree, or the children of a node along its parts. -/
inductive Layer where
  | tree (node : Node)
  | parts (parts : List Part) (children : List Node)

/-- A comma behind the last item of a list, if there is one. -/
inductive TrailingComma (text : List Char) : Nat → Nat → Prop
  | none {start : Nat} : TrailingComma text start start
  | comma {start place : Nat} (run : CommentRun text start [] place)
      (present : text[place]? = some ',') : TrailingComma text start (place + 1)

/-- The placeholder of something that the source leaves out at an offset. -/
structure IsVacant (data : String) (offset : Nat) (node : Node) : Prop where
  data_eq : node.data = data
  children_eq : node.children = []
  comments_eq : node.comments = []
  offset_eq : node.offset = some (offset : Int)

/-- A tree, or the rest of the children of a node, lies between two offsets of the text. -/
inductive Laid (text : List Char) : Nat → Layer → Nat → Prop
  | leaf {start place : Nat} {node : Node} (lead : Lead text start node.comments place)
      (token : LeafToken text place node) :
      Laid text start (.tree node) (place + node.data.length)
  | vacant {start : Nat} {node : Node} {data : String} (within : start ≤ text.length)
      (tag : data = Tag.empty ∨ data = Tag.list) (isVacant : IsVacant data start node) :
      Laid text start (.tree node) start
  | leading {start place stop : Nat} {node : Node} {spelling : String} {parts : List Part}
      (form : LeadingForm node.data spelling parts)
      (lead : Lead text start node.comments place)
      (offset_eq : node.offset = some (place : Int)) (spelled : Spelled text place spelling)
      (rest : Laid text (place + spelling.length) (.parts parts node.children) stop) :
      Laid text start (.tree node) stop
  | linking {start middle place stop : Nat} {node first : Node} {others : List Node}
      {spelling : String} {parts : List Part} (form : LinkingForm node.data spelling parts)
      (children_eq : node.children = first :: others)
      (front : Laid text start (.tree first) middle) (filled : start < middle)
      (lead : Lead text middle node.comments place)
      (offset_eq : node.offset = some (place : Int)) (spelled : Spelled text place spelling)
      (rest : Laid text (place + spelling.length) (.parts parts others) stop) :
      Laid text start (.tree node) stop
  | bare {start place stop : Nat} {node : Node} {parts : List Part}
      (form : BareForm node.data parts) (comments_eq : node.comments = [])
      (offset_eq : node.offset = some (place : Int)) (after : start ≤ place)
      (before : place < stop)
      (shared : node.data = Tag.invoke → ∃ child ∈ node.children, child.offset = node.offset)
      (rest : Laid text start (.parts parts node.children) stop) :
      Laid text start (.tree node) stop
  | nil {start : Nat} (within : start ≤ text.length) : Laid text start (.parts [] []) start
  | child {start before middle stop : Nat} {node : Node} {parts : List Part}
      {children : List Node} (spacing : Spacing text start before)
      (tree : Laid text before (.tree node) middle) (filled : before < middle)
      (rest : Laid text middle (.parts parts children) stop) :
      Laid text start (.parts (.child :: parts) (node :: children)) stop
  | absent {start stop : Nat} {node : Node} {parts : List Part} {children : List Node}
      (isVacant : IsVacant Tag.empty start node)
      (rest : Laid text start (.parts parts children) stop) :
      Laid text start (.parts (.absent :: parts) (node :: children)) stop
  | vacantList {start place stop : Nat} {node : Node} {parts : List Part}
      {children : List Node} (isVacant : IsVacant Tag.list place node) (after : start ≤ place)
      (before : place ≤ stop) (followed : ChildFollows parts children)
      (rest : Laid text start (.parts parts children) stop) :
      Laid text start (.parts (.vacant :: parts) (node :: children)) stop
  | closed {start before middle after place stop : Nat} {node : Node} {trailing : List Node}
      {tag closer : String} {parts : List Part} {children : List Node}
      (member : closer ∈ closingWords) (listed : tag = Tag.list → node.data = Tag.list)
      (spacing : Spacing text start before) (tree : Laid text before (.tree node) middle)
      (comma : TrailingComma text middle after) (run : CommentRun text after trailing place)
      (spelled : Spelled text place closer)
      (rest : Laid text (place + closer.length) (.parts parts children) stop) :
      Laid text start
        (.parts (.closed tag closer :: parts) (node.appendComments trailing :: children)) stop
  | unclosed {start before middle stop : Nat} {node : Node} {closer : String}
      {parts : List Part} {children : List Node} (list : node.data = Tag.list)
      (spacing : Spacing text start before) (tree : Laid text before (.tree node) middle)
      (filled : before < middle) (free : ¬ Spelled text (placeBehind text middle) closer)
      (rest : Laid text middle (.parts parts children) stop) :
      Laid text start (.parts (.unclosed closer :: parts) (node :: children)) stop
  | opened {start place middle stop : Nat} {node : Node} {comments : List Node}
      {parts : List Part} {children : List Node} (run : CommentRun text start comments place)
      (spelled : Spelled text place "<") (tree : Laid text (place + "<".length) (.tree node) middle)
      (filled : place + "<".length < middle)
      (rest : Laid text middle (.parts parts children) stop) :
      Laid text start (.parts (.opened :: parts) (node.withComments comments :: children)) stop
  | dropped {start place stop : Nat} {symbol : String} {parts : List Part}
      {children : List Node} (member : symbol ∈ droppedSymbols)
      (spacing : Spacing text start place) (spelled : Spelled text place symbol)
      (followed : ChildFollows parts children)
      (rest : Laid text (place + symbol.length) (.parts parts children) stop) :
      Laid text start (.parts (.dropped symbol :: parts) children) stop

/-! ### What the forms spell -/

theorem leadingOperators_plain :
    ∀ symbol ∈ leadingOperators, '#' ∉ symbol.toList ∧
      Lexeme.startsOperand symbol.toList = true := by
  decide

theorem linkingOperators_plain :
    ∀ symbol ∈ linkingOperators, '#' ∉ symbol.toList ∧
      Lexeme.startsOperand symbol.toList = true := by
  decide

theorem closingWords_solid :
    ∀ word ∈ closingWords, startsWithChar (· != ';') word.toList = true := by
  decide

theorem LeadingForm.spelling_plain {data spelling : String} {parts : List Part}
    (form : LeadingForm data spelling parts) :
    '#' ∉ spelling.toList ∧ Lexeme.startsOperand spelling.toList = true := by
  cases form with
  | operator member => exact leadingOperators_plain _ member
  | _ => decide

theorem LinkingForm.spelling_plain {data spelling : String} {parts : List Part}
    (form : LinkingForm data spelling parts) :
    '#' ∉ spelling.toList ∧ Lexeme.startsOperand spelling.toList = true := by
  cases form with
  | operator member => exact linkingOperators_plain _ member
  | _ => decide

theorem length_pos_of_startsOperand {word : String}
    (starts : Lexeme.startsOperand word.toList = true) : 0 < word.length := by
  obtain ⟨character, rest, equal, -⟩ := Lexeme.startsOperand_eq_true starts
  rw [← String.length_toList, equal]
  exact Nat.succ_pos _

theorem LeadingForm.spelling_length_pos {data spelling : String} {parts : List Part}
    (form : LeadingForm data spelling parts) : 0 < spelling.length :=
  length_pos_of_startsOperand form.spelling_plain.2

theorem LinkingForm.spelling_length_pos {data spelling : String} {parts : List Part}
    (form : LinkingForm data spelling parts) : 0 < spelling.length :=
  length_pos_of_startsOperand form.spelling_plain.2

theorem TrailingComma.bounds {text : List Char} {middle after : Nat}
    (comma : TrailingComma text middle after) (inside : middle ≤ text.length) :
    middle ≤ after ∧ after ≤ text.length := by
  cases comma with
  | none => exact ⟨Nat.le_refl _, inside⟩
  | comma run present =>
      have := (List.getElem?_eq_some_iff.mp present).1
      have := run.bounds
      omega

namespace Laid

variable {text : List Char} {start stop : Nat} {layer : Layer}

/-- A layout lies within the text. -/
theorem bounds (laid : Laid text start layer stop) : start ≤ stop ∧ stop ≤ text.length := by
  induction laid with
  | leaf lead token =>
      have leadBounds := lead.bounds
      exact ⟨by omega, token.spelled.bound leadBounds.2⟩
  | vacant within => exact ⟨Nat.le_refl _, within⟩
  | leading form lead offset_eq spelled rest ih =>
      have leadBounds := lead.bounds
      omega
  | linking form children_eq front filled lead offset_eq spelled rest frontIH restIH =>
      have leadBounds := lead.bounds
      omega
  | bare form comments_eq offset_eq after before shared rest ih => exact ih
  | nil within => exact ⟨Nat.le_refl _, within⟩
  | child spacing tree filled rest treeIH restIH =>
      have := spacing.le
      omega
  | absent isVacant rest ih => exact ih
  | vacantList isVacant after before followed rest ih => exact ih
  | closed member listed spacing tree comma run spelled rest treeIH restIH =>
      have := spacing.le
      have := comma.bounds treeIH.2
      have := run.bounds
      omega
  | unclosed list spacing tree filled free rest treeIH restIH =>
      have := spacing.le
      omega
  | opened run spelled tree filled rest treeIH restIH =>
      have := run.bounds
      omega
  | dropped member spacing spelled followed rest ih =>
      have := spacing.le
      omega

/-- The offset of a tree lies inside its layout. -/
theorem offset_bounds {node : Node} (laid : Laid text start (.tree node) stop) :
    ∃ offset : Nat, node.offset = some (offset : Int) ∧ start ≤ offset ∧ offset ≤ stop ∧
      (start < stop → offset < stop) := by
  cases laid with
  | leaf lead token =>
      have := lead.bounds
      have := token.length_pos
      exact ⟨_, token.offset_eq, by omega, by omega, fun _ => by omega⟩
  | vacant within tag isVacant =>
      exact ⟨start, isVacant.offset_eq, Nat.le_refl _, Nat.le_refl _, fun filled => by omega⟩
  | leading form lead offset_eq spelled rest =>
      have := lead.bounds
      have := form.spelling_length_pos
      have := rest.bounds
      exact ⟨_, offset_eq, by omega, by omega, fun _ => by omega⟩
  | linking form children_eq front filled lead offset_eq spelled rest =>
      have := lead.bounds
      have := form.spelling_length_pos
      have := rest.bounds
      exact ⟨_, offset_eq, by omega, by omega, fun _ => by omega⟩
  | bare form comments_eq offset_eq after before shared rest =>
      exact ⟨_, offset_eq, after, Nat.le_of_lt before, fun _ => before⟩

/-- The children along some parts and those along the parts behind them. -/
theorem append {middle : Nat} {parts moreParts : List Part} {children moreChildren : List Node}
    (front : Laid text start (.parts parts children) middle)
    (back : Laid text middle (.parts moreParts moreChildren) stop) :
    Laid text start (.parts (parts ++ moreParts) (children ++ moreChildren)) stop := by
  generalize layer_eq : Layer.parts parts children = layer at front
  induction front generalizing parts children with
  | leaf => cases layer_eq
  | vacant => cases layer_eq
  | leading => cases layer_eq
  | linking => cases layer_eq
  | bare => cases layer_eq
  | nil within =>
      cases layer_eq
      exact back
  | child spacing tree filled rest treeIH restIH =>
      cases layer_eq
      exact .child spacing tree filled (restIH back rfl)
  | absent isVacant rest ih =>
      cases layer_eq
      exact .absent isVacant (ih back rfl)
  | vacantList isVacant after before followed rest ih =>
      cases layer_eq
      exact .vacantList isVacant after (Nat.le_trans before back.bounds.1)
        (followed.append _ _) (ih back rfl)
  | closed member listed spacing tree comma run spelled rest treeIH restIH =>
      cases layer_eq
      exact .closed member listed spacing tree comma run spelled (restIH back rfl)
  | unclosed list spacing tree filled free rest treeIH restIH =>
      cases layer_eq
      exact .unclosed list spacing tree filled free (restIH back rfl)
  | opened run spelled tree filled rest treeIH restIH =>
      cases layer_eq
      exact .opened run spelled tree filled (restIH back rfl)
  | dropped member spacing spelled followed rest ih =>
      cases layer_eq
      exact .dropped member spacing spelled
        (followed.append _ _) (ih back rfl)

end Laid

/-- Where a word stands that does not begin with a semicolon stands none. -/
theorem Spelled.getElem?_ne_semicolon {text : List Char} {place : Nat} {word : String}
    (spelled : Spelled text place word) (solid : startsWithChar (· != ';') word.toList = true) :
    text[place]? ≠ some ';' := by
  obtain ⟨back, equal⟩ := spelled
  cases characters : word.toList with
  | nil => simp [characters, startsWithChar] at solid
  | cons character rest =>
      rw [characters] at equal solid
      have head : text[place]? = some character := by
        rw [← Nat.add_zero place, ← List.getElem?_drop, ← equal]
        rfl
      rw [head]
      rintro impossible
      cases impossible
      exact absurd solid (by simp [startsWithChar])

theorem Lexeme.startsSolid_of_startsOperand {word : List Char}
    (starts : startsOperand word = true) : startsWithChar (· != ';') word = true := by
  obtain ⟨character, rest, rfl, free⟩ := startsOperand_eq_true starts
  have notSemicolon : character ≠ ';' := by
    rintro rfl
    exact free (by decide)
  simpa [startsWithChar] using notSemicolon

/-- A tree whose first token stands at an offset, without comments in front of it. -/
inductive Begins (text : List Char) (place : Nat) : Node → Nat → Prop
  | leaf {node : Node} (token : LeafToken text place node) (comments_eq : node.comments = []) :
      Begins text place node (place + node.data.length)
  | leading {node : Node} {spelling : String} {parts : List Part} {stop : Nat}
      (form : LeadingForm node.data spelling parts) (comments_eq : node.comments = [])
      (offset_eq : node.offset = some (place : Int)) (spelled : Spelled text place spelling)
      (rest : Laid text (place + spelling.length) (.parts parts node.children) stop) :
      Begins text place node stop

/-- What stands in front of the first token of a tree may carry its comments. -/
theorem Begins.laid {text : List Char} {start place stop : Nat} {node : Node}
    {comments : List Node} (begins : Begins text place node stop)
    (lead : Lead text start comments place) :
    Laid text start (.tree (node.withComments comments)) stop := by
  cases begins with
  | leaf token comments_eq =>
      refine Laid.leaf ?_ ?_
      · simpa [Node.withComments, comments_eq] using lead
      · exact ⟨token.children_eq, token.offset_eq, token.spelled, token.starts,
          token.regexp_of_sign⟩
  | leading form comments_eq offset_eq spelled rest =>
      refine Laid.leading form ?_ offset_eq spelled rest
      simpa [Node.withComments, comments_eq] using lead

theorem Begins.lt {text : List Char} {place stop : Nat} {node : Node}
    (begins : Begins text place node stop) : place < stop := by
  cases begins with
  | leaf token comments_eq =>
      have := token.length_pos
      omega
  | leading form comments_eq offset_eq spelled rest =>
      have := form.spelling_length_pos
      have := rest.bounds
      omega

theorem Begins.spelled {text : List Char} {place stop : Nat} {node : Node}
    (begins : Begins text place node stop) :
    ∃ word, Spelled text place word ∧ Lexeme.startsOperand word.toList = true := by
  cases begins with
  | leaf token comments_eq => exact ⟨_, token.spelled, token.starts⟩
  | leading form comments_eq offset_eq spelled rest => exact ⟨_, spelled, form.spelling_plain.2⟩

/-- The first token of a tree is no semicolon. -/
theorem Begins.getElem?_ne_semicolon {text : List Char} {place stop : Nat} {node : Node}
    (begins : Begins text place node stop) : text[place]? ≠ some ';' := by
  obtain ⟨word, spelled, starts⟩ := begins.spelled
  exact spelled.getElem?_ne_semicolon (Lexeme.startsSolid_of_startsOperand starts)

/-- The first token at or behind an offset is no delimiter. -/
def SolidFrom (text : List Char) (start : Nat) : Prop :=
  ∀ character, text[tokenPlace text start]? = some character → character ∉ Lexeme.delimiters

/-- Behind comments the first token is the one that they run up to. -/
theorem CommentRun.solidFrom {text : List Char} {start place : Nat} {comments : List Node}
    {word : String} (run : CommentRun text start comments place)
    (spelled : Spelled text place word) (starts : Lexeme.startsOperand word.toList = true) :
    SolidFrom text start := by
  intro character present
  obtain ⟨first, rest, equal, free⟩ := Lexeme.startsOperand_eq_true starts
  obtain ⟨back, begins⟩ := spelled
  rw [run.tokenPlace_eq, ← Nat.add_zero place, ← List.getElem?_drop, ← begins, equal] at present
  cases present
  exact free

/-- No closing parenthesis follows where the first token is no delimiter. -/
theorem SolidFrom.not_closed {text : List Char} {start : Nat} (solid : SolidFrom text start) :
    ¬ Spelled text (placeBehind text start) ")" := by
  have noComma : text[tokenPlace text start]? ≠ some ',' :=
    fun present => solid _ present (by decide)
  rw [placeBehind, if_neg noComma]
  intro closed
  have present : text[tokenPlace text start]? = some ')' :=
    closed.getElem? (by decide : 0 < ")".length)
  exact solid _ present (by decide)

end RubySyntax
