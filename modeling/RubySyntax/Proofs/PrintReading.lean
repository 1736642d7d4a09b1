import RubySyntax.Proofs.LineLayout
import RubySyntax.Proofs.TreeEquality

/-!
# Reading printed trees

A text is cut into parentheses, words between quotes and words without quotes, and a stack
of open parentheses turns these tokens back into a tree.  Every layout of a tree spells the
same tokens and differs from the others only in the blanks and line feeds between them.  So
one reader, which knows neither the indentation nor the width nor the level, reads each
printed tree back, and unequal trees are never printed alike.
-/

namespace RubySyntax

namespace PrintStyle

/-- A style that shows neither positions nor comments. -/
def plain (indentWidth width : Int) : PrintStyle where
  indentWidth := indentWidth
  width := width
  showPositions := false
  showComments := false

end PrintStyle

inductive PrintToken where
  | opening
  | closing
  /-- Data between quotes. -/
  | quoted (data : String)
  /-- Data without quotes. -/
  | word (data : String)
deriving DecidableEq, Repr

namespace PrintToken

def text : PrintToken → List Char
  | opening => ['(']
  | closing => [')']
  | quoted data => (TreePrinter.quotedData data).toList
  | word data => data.toList

/-- A token without quotes is not empty and none of its characters needs quotes. -/
def Genuine : PrintToken → Prop
  | word data =>
    data.toList ≠ [] ∧ ∀ character ∈ data.toList, TreePrinter.isBare character = true
  | _ => True

/-- Data as a token, between quotes only if it would not read back without them. -/
def ofData (data : String) : PrintToken :=
  if !data.isEmpty && data.toList.all TreePrinter.isBare then word data else quoted data

end PrintToken

namespace TreeReader

open PrintToken TreePrinter

/-! ### Cutting a text into tokens -/

/-- Where a text is being read. -/
inductive ScanState where
  | between
  | inWord (read : List Char)
  | inQuotes (read : List Char)
  /-- Behind a backslash between quotes. -/
  | escaped (read : List Char)
deriving DecidableEq, Repr

/-- A character between two tokens, which may begin the second one. -/
def beginToken (character : Char) : Option (List PrintToken × ScanState) :=
  if isBlank character then some ([], .between)
  else if character = '(' then some ([opening], .between)
  else if character = ')' then some ([closing], .between)
  else if character = '"' then some ([], .inQuotes [])
  else if isBare character then some ([], .inWord [character])
  else none

/-- The tokens that a character completes, and the state behind it. -/
def advance : ScanState → Char → Option (List PrintToken × ScanState)
  | .between, character => beginToken character
  | .inWord read, character =>
    if isBare character then some ([], .inWord (read ++ [character]))
    else
      (beginToken character).map fun (tokens, next) =>
        (word (String.ofList read) :: tokens, next)
  | .inQuotes read, character =>
    if character = '"' then some ([PrintToken.quoted (String.ofList read)], .between)
    else if character = '\\' then some ([], .escaped read)
    else some ([], .inQuotes (read ++ [character]))
  | .escaped read, character =>
    some ([], .inQuotes (read ++ [if character = 'n' then '\n' else character]))

/-- The tokens of a text, if it consists of tokens. -/
def scan : ScanState → List Char → Option (List PrintToken)
  | .between, [] => some []
  | .inWord read, [] => some [word (String.ofList read)]
  | .inQuotes _, [] => none
  | .escaped _, [] => none
  | state, character :: rest =>
    (advance state character).bind fun (tokens, next) => (scan next rest).map (tokens ++ ·)

/-! ### Putting tokens together -/

inductive OpenParenthesis where
  /-- Nothing stands behind it yet. -/
  | headless
  /-- Its head and the trees behind that stand there. -/
  | headed (data : String) (children : List Node)

/-- A further tree behind the head of the innermost parenthesis. -/
def addTree (tree : Node) : List OpenParenthesis → Option (List OpenParenthesis)
  | .headed data children :: outer => some (.headed data (children ++ [tree]) :: outer)
  | _ => none

/-- What a token does to the open parentheses, the innermost of which comes first. -/
def step : List OpenParenthesis → PrintToken → Option (List OpenParenthesis)
  | stack, .opening => some (.headless :: stack)
  | .headless :: outer, .quoted data => some (.headed data [] :: outer)
  | .headless :: outer, .closing => addTree { data := Tag.empty } outer
  | .headed data (first :: others) :: outer, .closing =>
    addTree { data := data, children := first :: others } outer
  | _, .closing => none
  | stack, .quoted data => addTree { data := data } stack
  | stack, .word data => addTree { data := data } stack

/-- The tree that tokens spell, if they spell a single one. -/
def assemble (tokens : List PrintToken) : Option Node :=
  (tokens.foldlM step [.headed "" []]).bind fun
    | [.headed _ [tree]] => some tree
    | _ => none

end TreeReader

/-- The tree that a text shows, if it shows one. -/
def readTree (text : String) : Option Node :=
  (TreeReader.scan .between text.toList).bind TreeReader.assemble

namespace Node

mutual

/-- The tokens of a printed tree. -/
def printTokens : Node → List PrintToken
  | ⟨data, children, comments, offset, position⟩ =>
    if Node.isEmpty ⟨data, children, comments, offset, position⟩ then [.opening, .closing]
    else if children.isEmpty then [.ofData data]
    else .opening :: .quoted data :: (printTokensOfAll children ++ [.closing])

def printTokensOfAll : List Node → List PrintToken
  | [] => []
  | node :: others => node.printTokens ++ printTokensOfAll others

end

@[simp]
theorem printTokensOfAll_eq_flatMap (nodes : List Node) :
    printTokensOfAll nodes = nodes.flatMap printTokens := by
  induction nodes with
  | nil => rfl
  | cons node others ih => rw [printTokensOfAll, ih, List.flatMap_cons]

theorem printTokens_leaf {node : Node} (childless : node.children = []) :
    node.printTokens = if node.isEmpty then [.opening, .closing] else [.ofData node.data] := by
  cases node
  cases childless
  rfl

theorem printTokens_composite {node : Node} (filled : node.children ≠ []) :
    node.printTokens =
      .opening :: .quoted node.data :: (node.children.flatMap printTokens ++ [.closing]) := by
  cases node
  rw [printTokens, if_neg (by simp [Node.isEmpty, filled]), if_neg (by simpa using filled),
    printTokensOfAll_eq_flatMap]

end Node

namespace TreeReader

open PrintToken TreePrinter

/-! ### What tokens are cut out of -/

/-- A text that no word goes on in. -/
def EndsWord (text : List Char) : Prop :=
  ∀ character ∈ text.head?, isBare character = false

/-- Blanks and line feeds. -/
def IsGap (text : List Char) : Prop :=
  ∀ character ∈ text, character = ' ' ∨ character = '\n'

/-- A text consists of tokens, and of blanks and line feeds between them. -/
inductive Spells : List PrintToken → List Char → Prop
  | last {token : PrintToken} (genuine : token.Genuine) : Spells [token] token.text
  | before {token : PrintToken} {tokens : List PrintToken} {gap rest : List Char}
      (genuine : token.Genuine) (isGap : IsGap gap) (ends : EndsWord (gap ++ rest))
      (spells : Spells tokens rest) :
      Spells (token :: tokens) (token.text ++ (gap ++ rest))

variable {state next : ScanState} {character : Char} {token : PrintToken}

theorem scan_cons (state : ScanState) (character : Char) (rest : List Char) :
    scan state (character :: rest) =
      (advance state character).bind fun (tokens, next) => (scan next rest).map (tokens ++ ·) := by
  cases state <;> rfl

theorem scan_of_silent (silent : advance state character = some ([], next)) (rest : List Char) :
    scan state (character :: rest) = scan next rest := by
  rw [scan_cons, silent]
  exact Option.map_id'

theorem scan_of_token (complete : advance state character = some ([token], next))
    (rest : List Char) : scan state (character :: rest) = (scan next rest).map (token :: ·) := by
  rw [scan_cons, complete]
  rfl

theorem beginToken_of_isBare (bare : isBare character = true) :
    beginToken character = some ([], .inWord [character]) := by
  have apart : ∀ special, isBare special = false → character ≠ special := by
    rintro special quoted rfl
    rw [bare] at quoted
    cases quoted
  have filled : isBlank character = false := by
    simpa using (Bool.and_eq_true_iff.mp bare).1
  rw [beginToken, filled, if_neg (by decide), if_neg (apart _ (by decide)),
    if_neg (apart _ (by decide)), if_neg (apart _ (by decide)), if_pos bare]

theorem scan_gap {gap : List Char} (blank : ∀ character ∈ gap, isBlank character = true)
    (rest : List Char) : scan .between (gap ++ rest) = scan .between rest := by
  induction gap with
  | nil => rfl
  | cons character gap ih =>
      rw [List.forall_mem_cons] at blank
      have skipped : advance .between character = some ([], .between) := if_pos blank.1
      rw [List.cons_append, scan_of_silent skipped, ih blank.2]

theorem scan_word {letters : List Char} (bare : ∀ character ∈ letters, isBare character = true)
    (read rest : List Char) :
    scan (.inWord read) (letters ++ rest) = scan (.inWord (read ++ letters)) rest := by
  induction letters generalizing read with
  | nil => rw [List.nil_append, List.append_nil]
  | cons character letters ih =>
      rw [List.forall_mem_cons] at bare
      have added : advance (.inWord read) character = some ([], .inWord (read ++ [character])) :=
        if_pos bare.1
      rw [List.cons_append, scan_of_silent added, ih bare.2, List.append_assoc,
        List.singleton_append]

theorem scan_wordEnd (read : List Char) {rest : List Char} (ends : EndsWord rest) :
    scan (.inWord read) rest =
      (scan .between rest).map (PrintToken.word (String.ofList read) :: ·) := by
  cases rest with
  | nil => rfl
  | cons character rest =>
      have other : isBare character = false := ends character rfl
      rw [scan_cons, scan_cons, advance, advance, other, if_neg (by decide)]
      cases beginToken character with
      | none => rfl
      | some begun => simp [Option.map_map, Function.comp_def]

theorem scan_quotedCharacter (read : List Char) (character : Char) (rest : List Char) :
    scan (.inQuotes read) (quotedCharacter character ++ rest) =
      scan (.inQuotes (read ++ [character])) rest := by
  have waits : advance (.inQuotes read) '\\' = some ([], .escaped read) := rfl
  unfold quotedCharacter
  split_ifs with backslash quote feed
  · subst backslash
    exact (scan_of_silent waits _).trans (scan_of_silent rfl _)
  · subst quote
    exact (scan_of_silent waits _).trans (scan_of_silent rfl _)
  · subst feed
    exact (scan_of_silent waits _).trans (scan_of_silent rfl _)
  · have added : advance (.inQuotes read) character =
        some ([], .inQuotes (read ++ [character])) := by
      rw [advance, if_neg quote, if_neg backslash]
    exact scan_of_silent added rest

theorem scan_quotes (data read rest : List Char) :
    scan (.inQuotes read) (data.flatMap quotedCharacter ++ '"' :: rest) =
      (scan .between rest).map (PrintToken.quoted (String.ofList (read ++ data)) :: ·) := by
  induction data generalizing read with
  | nil => exact (scan_of_token rfl rest).trans (by rw [List.append_nil])
  | cons character data ih =>
      rw [List.flatMap_cons, List.append_assoc, scan_quotedCharacter, ih, List.append_assoc,
        List.singleton_append]

/-- A token is cut off the front of a text in which no word goes on behind it. -/
theorem scan_token (genuine : token.Genuine) {rest : List Char} (ends : EndsWord rest) :
    scan .between (token.text ++ rest) = (scan .between rest).map (token :: ·) := by
  cases token with
  | opening => exact scan_of_token (by decide) rest
  | closing => exact scan_of_token (by decide) rest
  | quoted data =>
      have begun : advance .between '"' = some ([], .inQuotes []) := by decide
      rw [PrintToken.text, toList_quotedData, List.cons_append, List.append_assoc,
        scan_of_silent begun, List.singleton_append, scan_quotes, List.nil_append,
        String.ofList_toList]
  | word data =>
      obtain ⟨present, bare⟩ := genuine
      rw [PrintToken.text]
      cases data_eq : data.toList with
      | nil => exact absurd data_eq present
      | cons first others =>
          rw [data_eq, List.forall_mem_cons] at bare
          have begun : advance .between first = some ([], .inWord [first]) :=
            beginToken_of_isBare bare.1
          rw [List.cons_append, scan_of_silent begun, scan_word bare.2,
            scan_wordEnd _ ends, List.singleton_append, ← data_eq, String.ofList_toList]

/-- A text is cut into the tokens that it consists of. -/
theorem Spells.scan_eq {tokens : List PrintToken} {text : List Char}
    (spells : Spells tokens text) : scan .between text = some tokens := by
  induction spells with
  | @last token genuine =>
      have alone := @scan_token token genuine [] (by simp [EndsWord])
      rwa [List.append_nil] at alone
  | @before token tokens gap rest genuine isGap ends spells ih =>
      have blank : ∀ character ∈ gap, isBlank character = true := by
        intro character member
        rcases isGap character member with rfl | rfl <;> decide
      rw [scan_token genuine ends, scan_gap blank, ih]
      rfl

/-! ### What a printed tree consists of -/

theorem EndsWord.append {text : List Char} (ends : EndsWord text) (present : text ≠ [])
    (rest : List Char) : EndsWord (text ++ rest) := by
  rwa [EndsWord, List.head?_append_of_ne_nil _ present]

theorem endsWord_cons (other : isBare character = false) (rest : List Char) :
    EndsWord (character :: rest) := by
  simpa [EndsWord] using other

theorem IsGap.endsWord {gap : List Char} (isGap : IsGap gap) (present : gap ≠ [])
    (rest : List Char) : EndsWord (gap ++ rest) := by
  refine EndsWord.append (fun character first => ?_) present rest
  rcases isGap character (List.mem_of_mem_head? first) with rfl | rfl <;> decide

theorem isGap_gap (style : PrintStyle) (level : Int) (onLine : Bool) :
    IsGap (gap style level onLine) := by
  unfold gap
  split
  · simp [IsGap]
  · intro character member
    rcases List.mem_cons.mp member with rfl | member
    · exact Or.inr rfl
    · exact Or.inl (List.eq_of_mem_replicate member)

theorem gap_ne_nil (style : PrintStyle) (level : Int) (onLine : Bool) :
    gap style level onLine ≠ [] := by
  unfold gap
  split <;> simp

theorem text_ne_nil (genuine : token.Genuine) : token.text ≠ [] := by
  cases token with
  | opening => exact List.cons_ne_nil _ _
  | closing => exact List.cons_ne_nil _ _
  | quoted data => simp [PrintToken.text, toList_quotedData]
  | word data => exact genuine.1

theorem text_ofData (data : String) : (ofData data).text = (atom data).toList := by
  unfold ofData atom
  split <;> rfl

theorem genuine_ofData (data : String) : (ofData data).Genuine := by
  unfold ofData
  split
  · rename_i bare
    rw [Bool.and_eq_true, List.all_eq_true] at bare
    exact ⟨by simpa using bare.1, bare.2⟩
  · trivial

namespace Spells

variable {tokens others : List PrintToken} {text other gap : List Char}

theorem ne_nil (spells : Spells tokens text) : text ≠ [] := by
  cases spells with
  | last genuine => exact text_ne_nil genuine
  | before genuine => exact List.append_ne_nil_of_left_ne_nil (text_ne_nil genuine) _

theorem append (spells : Spells tokens text) (isGap : IsGap gap) (ends : EndsWord (gap ++ other))
    (spellsOther : Spells others other) : Spells (tokens ++ others) (text ++ (gap ++ other)) := by
  induction spells with
  | last genuine => exact .before genuine isGap ends spellsOther
  | @before token tokens first rest genuine isGap ends spells ih =>
      have endsThere := ends.append (List.append_ne_nil_of_right_ne_nil _ spells.ne_nil)
        (gap ++ other)
      rw [List.append_assoc] at endsThere
      rw [List.append_assoc, List.append_assoc]
      exact .before genuine isGap endsThere ih

/-- A token with nothing between it and the next one. -/
theorem directly (genuine : token.Genuine) (ends : EndsWord text) (spells : Spells tokens text) :
    Spells (token :: tokens) (token.text ++ text) :=
  @before token tokens [] text genuine (List.forall_mem_nil _) ends spells

/-- Trees behind the same gap each, up to a closing parenthesis. -/
theorem append_trees {shown : Node → List Char} (spells : Spells tokens text) (isGap : IsGap gap)
    (present : gap ≠ []) {nodes : List Node}
    (each : ∀ node ∈ nodes, Spells node.printTokens (shown node)) :
    Spells (tokens ++ (nodes.flatMap Node.printTokens ++ [.closing]))
      (text ++ (nodes.flatMap (gap ++ shown ·) ++ [')'])) := by
  induction nodes generalizing tokens text with
  | nil =>
      have closed : Spells [.closing] [')'] := @Spells.last .closing trivial
      exact spells.append (List.forall_mem_nil _) (endsWord_cons (by decide) []) closed
  | cons node nodes ih =>
      rw [List.forall_mem_cons] at each
      have longer := ih (spells.append isGap (isGap.endsWord present _) each.1) each.2
      simpa using longer

end Spells

@[simp]
theorem positionMark_plain (indentWidth width : Int) (node : Node) :
    positionMark (.plain indentWidth width) node = "" := by
  unfold positionMark
  split <;> rfl

theorem spells_empty : Spells [.opening, .closing] "()".toList :=
  @Spells.directly .opening [.closing] [')'] trivial (endsWord_cons (by decide) [])
    (@Spells.last .closing trivial)

theorem spells_head (indentWidth width : Int) (node : Node) :
    Spells [.opening, .quoted node.data] (head (.plain indentWidth width) node).toList := by
  have ends : EndsWord (quotedData node.data).toList := by
    rw [toList_quotedData]
    exact endsWord_cons (by decide) _
  rw [toList_head, positionMark_plain, String.toList_empty, List.append_nil]
  exact @Spells.directly .opening [.quoted node.data] _ trivial ends
    (@Spells.last (.quoted node.data) trivial)

/-- A tree is spelled by the same tokens in every layout. -/
theorem spells_printed (indentWidth width level : Int) (node : Node) :
    Spells node.printTokens (printed (.plain indentWidth width) level node).toList := by
  induction node using Node.inductionOnChildren generalizing level with
  | step node ih =>
      by_cases childless : node.children = []
      · rw [printed_leaf rfl childless, oneLine_leaf childless, leafText,
          Node.printTokens_leaf childless]
        split
        · exact spells_empty
        · rw [positionMark_plain, String.append_empty, ← text_ofData]
          exact .last (genuine_ofData _)
      · rw [printed_composite rfl childless, Node.printTokens_composite childless, assembled,
          List.flatMap_map]
        exact (spells_head indentWidth width node).append_trees (isGap_gap _ _ _) (gap_ne_nil _ _ _)
          fun child member => ih child member (level + 1)

/-- A tree is printed without regard to what equality does not see. -/
theorem printed_bare (indentWidth width level : Int) (node : Node) :
    printed (.plain indentWidth width) level node.bare =
      printed (.plain indentWidth width) level node := by
  induction node using Node.inductionOnChildren generalizing level with
  | step node ih =>
      have children : node.bare.children.map (printed (.plain indentWidth width) (level + 1)) =
          node.children.map (printed (.plain indentWidth width) (level + 1)) := by
        rw [Node.bare_children, List.map_map]
        exact List.map_congr_left fun child member => ih child member (level + 1)
      have unmarked : ∀ other : Node, commentMark (.plain indentWidth width) other = "" :=
        fun _ => rfl
      have isLeaf : node.bare.isLeaf = node.isLeaf := by simp [Node.isLeaf]
      have isEmpty : node.bare.isEmpty = node.isEmpty := by simp [Node.isEmpty]
      have heads : head (.plain indentWidth width) node.bare =
          head (.plain indentWidth width) node := by
        simp [head]
      rw [printed_eq, printed_eq, children, unmarked, unmarked]
      simp only [bodyText, isLeaf, isEmpty, composite, heads, Node.bare_data, positionMark_plain]

/-! ### What tokens are put together to -/

variable {data : String} {children : List Node} {outer : List OpenParenthesis}

theorem foldlM_step_trees {nodes : List Node}
    (each : ∀ node ∈ nodes, ∀ (data : String) (children : List Node)
      (outer : List OpenParenthesis),
      node.printTokens.foldlM step (.headed data children :: outer) =
        some (.headed data (children ++ [node.bare]) :: outer)) :
    (nodes.flatMap Node.printTokens).foldlM step (.headed data children :: outer) =
      some (.headed data (children ++ nodes.map Node.bare) :: outer) := by
  induction nodes generalizing children with
  | nil => simp
  | cons node nodes ih =>
      rw [List.forall_mem_cons] at each
      rw [List.flatMap_cons, List.foldlM_append, each.1, Option.bind_eq_bind, Option.bind_some,
        ih each.2, List.append_assoc, List.map_cons, List.singleton_append]

theorem foldlM_step_printTokens (node : Node) (data : String) (children : List Node)
    (outer : List OpenParenthesis) :
    node.printTokens.foldlM step (.headed data children :: outer) =
      some (.headed data (children ++ [node.bare]) :: outer) := by
  induction node using Node.inductionOnChildren generalizing data children outer with
  | step node ih =>
      by_cases childless : node.children = []
      · rw [Node.printTokens_leaf childless]
        have bare_eq : node.bare = { data := node.data } := by
          rw [Node.bare_eq, childless, List.map_nil]
        split
        · rename_i isEmpty
          have data_eq : node.data = Tag.empty := by
            simpa [Node.isEmpty, childless] using isEmpty
          rw [bare_eq, data_eq]
          rfl
        · rw [bare_eq, ofData]
          split <;> rfl
      · obtain ⟨first, others, children_eq⟩ := List.exists_cons_of_ne_nil childless
        have opened : ([.opening, .quoted node.data] : List PrintToken).foldlM step
            (.headed data children :: outer) =
              some (.headed node.data [] :: .headed data children :: outer) := rfl
        have closed : ([.closing] : List PrintToken).foldlM step
            (.headed node.data (node.children.map Node.bare) :: .headed data children :: outer) =
              some (.headed data (children ++ [node.bare]) :: outer) := by
          rw [Node.bare_eq, children_eq]
          rfl
        have tokens_eq : node.printTokens = [.opening, .quoted node.data] ++
            (node.children.flatMap Node.printTokens ++ [.closing]) :=
          Node.printTokens_composite childless
        simp only [tokens_eq, List.foldlM_append, opened, foldlM_step_trees ih, List.nil_append,
          closed, Option.bind_eq_bind, Option.bind_some]

theorem assemble_printTokens (node : Node) : assemble node.printTokens = some node.bare := by
  rw [assemble, foldlM_step_printTokens]
  rfl

/-- A reader that knows nothing of the layout gets back all that equality sees of a tree. -/
theorem readTree_printed (indentWidth width level : Int) (node : Node) :
    readTree (printed (.plain indentWidth width) level node) = some node.bare := by
  rw [readTree, (spells_printed indentWidth width level node).scan_eq, Option.bind_some,
    assemble_printTokens]

example : readTree "(\"a b\"\n  () (\"+\" x \"\\\"\\n\"))" =
    some ⟨"a b", [⟨"", [], [], none, none⟩, ⟨"+", [⟨"x", [], [], none, none⟩,
      ⟨"\"\n", [], [], none, none⟩], [], none, none⟩], [], none, none⟩ := by
  rfl

theorem print_plain (indentWidth width level : Int) (node : Node) :
    node.print (.plain indentWidth width) level =
      .ok (printed (.plain indentWidth width) level node) :=
  Node.print_eq_printed (fun _ _ shown => by cases shown) level

end TreeReader

open TreeReader in
/-- Printed without positions and comments, every tree is read back as an equal one, whatever the
indentation, the width and the level are.  So exactly the equal trees are printed alike, and two
layouts of a tree consist of the same tokens. -/
theorem Node.print_reads_back :
    (∀ (node : Node) (indentWidth width level : Int), ∃ text tree,
      node.print (.plain indentWidth width) level = .ok text ∧
        readTree text = some tree ∧ (tree == node) = true) ∧
    (∀ (node other : Node) (indentWidth width level : Int),
      node.print (.plain indentWidth width) level = other.print (.plain indentWidth width) level ↔
        (node == other) = true) ∧
    ∀ (node : Node) (indentWidth width level indentWidth' width' level' : Int), ∃ text text',
      node.print (.plain indentWidth width) level = .ok text ∧
        node.print (.plain indentWidth' width') level' = .ok text' ∧
          Spells node.printTokens text.toList ∧ Spells node.printTokens text'.toList := by
  refine ⟨fun node indentWidth width level => ?_, fun node other indentWidth width level => ?_,
    fun node indentWidth width level indentWidth' width' level' => ?_⟩
  · exact ⟨_, node.bare, print_plain indentWidth width level node,
      readTree_printed indentWidth width level node, beq_iff_bare.mpr (bare_bare node)⟩
  · rw [print_plain, print_plain, Except.ok.injEq, beq_iff_bare]
    constructor
    · intro alike
      have read := congrArg readTree alike
      rwa [readTree_printed, readTree_printed, Option.some.injEq] at read
    · intro equal
      rw [← printed_bare indentWidth width level node, equal, printed_bare]
  · exact ⟨_, _, print_plain indentWidth width level node,
      print_plain indentWidth' width' level' node,
      spells_printed indentWidth width level node, spells_printed indentWidth' width' level' node⟩

end RubySyntax
