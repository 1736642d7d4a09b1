import RubySyntax.Proofs.JsonReading
import RubySyntax.Proofs.PrintedTrees

/-!
# Lines of a printed tree

Children are printed before it is known whether their parent stays on one line.  With an
indentation of at most five blanks the order makes no difference: a child is indented by
so much more than its parent as it is shorter, or by less, so that it fits wherever its
parent does.  A composite therefore stays on one line exactly if all of it fits there.
-/

namespace RubySyntax

namespace TreePrinter

variable {style : PrintStyle} {level : Int} {node : Node}

/-! ### No line feeds -/

theorem toList_quotedData (data : String) :
    (quotedData data).toList = '"' :: (data.toList.flatMap quotedCharacter ++ ['"']) := by
  simp [quotedData]

theorem feed_not_mem_quotedData (data : String) : '\n' ∉ (quotedData data).toList := by
  have escaped : ∀ character, '\n' ∉ quotedCharacter character := by
    intro character
    unfold quotedCharacter
    split_ifs with backslash quote feed
    · decide
    · simp only [List.mem_cons, List.not_mem_nil, or_false, not_or, quote]
      decide
    · decide
    · exact fun member => feed (List.mem_singleton.mp member).symm
  simp [toList_quotedData, escaped]

theorem feed_not_mem_atom (data : String) : '\n' ∉ (atom data).toList := by
  unfold atom
  split
  · rename_i bare
    rw [Bool.and_eq_true, List.all_eq_true] at bare
    exact fun member => absurd (bare.2 _ member) (by decide)
  · exact feed_not_mem_quotedData data

theorem feed_not_mem_toString (value : Int) : '\n' ∉ (toString value).toList := by
  rw [JsonReader.toList_toString, List.mem_append, not_or]
  constructor
  · split <;> decide
  · exact fun member => absurd (JsonReader.isDigit_toDigits _ _ member) (by decide)

theorem feed_not_mem_positionMark (style : PrintStyle) (node : Node) :
    '\n' ∉ (positionMark style node).toList := by
  unfold positionMark
  split
  · split
    · simp only [String.toList_append, List.mem_append, not_or]
      exact ⟨⟨⟨by decide, feed_not_mem_toString _⟩, by decide⟩, feed_not_mem_toString _⟩
    · simp
  · simp

theorem toList_head (style : PrintStyle) (node : Node) :
    (head style node).toList =
      '(' :: ((quotedData node.data).toList ++ (positionMark style node).toList) := by
  simp [head]

theorem feed_not_mem_head (style : PrintStyle) (node : Node) :
    '\n' ∉ (head style node).toList := by
  simp only [head, String.toList_append, List.mem_append, not_or]
  exact ⟨⟨by decide, feed_not_mem_quotedData _⟩, feed_not_mem_positionMark style node⟩

/-! ### One line -/

/-- A node without children: the empty node, or its data and its position. -/
def leafText (style : PrintStyle) (node : Node) : String :=
  if node.isEmpty then "()" else atom node.data ++ positionMark style node

mutual

/-- A tree on one line: each child stands behind a blank. -/
def oneLine (style : PrintStyle) : Node → List Char
  | ⟨data, children, comments, offset, position⟩ =>
    if children.isEmpty then (leafText style ⟨data, children, comments, offset, position⟩).toList
    else assembled (head style ⟨data, children, comments, offset, position⟩).toList [' ']
      (oneLineAll style children)

def oneLineAll (style : PrintStyle) : List Node → List (List Char)
  | [] => []
  | node :: others => oneLine style node :: oneLineAll style others

end

theorem oneLineAll_eq_map (style : PrintStyle) (nodes : List Node) :
    oneLineAll style nodes = nodes.map (oneLine style) := by
  induction nodes with
  | nil => rfl
  | cons node others ih => rw [oneLineAll, ih, List.map_cons]

theorem oneLine_leaf (childless : node.children = []) :
    oneLine style node = (leafText style node).toList := by
  cases node
  cases childless
  rfl

theorem oneLine_composite (filled : node.children ≠ []) :
    oneLine style node =
      assembled (head style node).toList [' '] (node.children.map (oneLine style)) := by
  cases node
  rw [oneLine, if_neg (by simpa using filled), oneLineAll_eq_map]

theorem mem_assembled {front gap : List Char} {children : List (List Char)} {character : Char}
    (apart : character ≠ ')') : character ∈ assembled front gap children ↔
      character ∈ front ∨ ∃ child ∈ children, character ∈ gap ∨ character ∈ child := by
  simp [assembled, apart]

theorem feed_not_mem_oneLine (style : PrintStyle) (node : Node) : '\n' ∉ oneLine style node := by
  induction node using Node.inductionOnChildren with
  | step node ih =>
      by_cases childless : node.children = []
      · rw [oneLine_leaf childless, leafText]
        split
        · decide
        · simp only [String.toList_append, List.mem_append, not_or]
          exact ⟨feed_not_mem_atom _, feed_not_mem_positionMark style node⟩
      · rw [oneLine_composite childless, mem_assembled (by decide)]
        simpa [feed_not_mem_head] using ih

/-- The parentheses, the quotes and a blank make a composite longer than each of its children. -/
theorem length_oneLine_child {child : Node} (member : child ∈ node.children) :
    (oneLine style child).length + 5 ≤ (oneLine style node).length := by
  obtain ⟨earlier, later, children_eq⟩ := List.append_of_mem member
  have head_length : 3 ≤ (head style node).toList.length := by
    simp only [head, String.toList_append, toList_quotedData, List.length_append,
      List.length_cons]
    have : "(".toList.length = 1 := by decide
    omega
  rw [oneLine_composite (List.ne_nil_of_mem member), children_eq, assembled]
  simp only [List.map_append, List.map_cons, List.flatMap_append, List.flatMap_cons,
    List.length_append, List.length_cons, List.length_nil]
  omega

/-! ### What fits -/

/-- The whole tree on one line fits into the width at its indentation. -/
def Fits (style : PrintStyle) (level : Int) (node : Node) : Prop :=
  style.indentWidth.toNat * level + ((oneLine style node).length : Int) ≤ style.width

instance : Decidable (Fits style level node) :=
  inferInstanceAs (Decidable (_ ≤ _))

theorem Fits.child (fits : Fits style level node) (narrow : style.indentWidth ≤ 5) {child : Node}
    (member : child ∈ node.children) : Fits style (level + 1) child := by
  have shorter := @length_oneLine_child style node child member
  unfold Fits at fits ⊢
  rw [Int.mul_add, Int.mul_one]
  omega

/-! ### Lines of a tree -/

section

variable (unshown : style.showComments = false)
include unshown

theorem printed_leaf (childless : node.children = []) :
    (printed style level node).toList = oneLine style node := by
  rw [printed_eq, oneLine_leaf childless, commentMark, unshown, Bool.false_and,
    if_neg (by decide), String.empty_append, bodyText, leafText]
  have isLeaf : node.isLeaf = true := by rw [Node.isLeaf, childless]; rfl
  rw [isLeaf]
  rfl

/-- The children of a composite as they are printed one level further in. -/
def childTexts (style : PrintStyle) (level : Int) (node : Node) : List String :=
  node.children.map (printed style (level + 1))

theorem printed_composite (filled : node.children ≠ []) :
    (printed style level node).toList =
      assembled (head style node).toList
        (gap style level (staysOnLine style level node (childTexts style level node)))
        (node.children.map fun child => (printed style (level + 1) child).toList) := by
  have notLeaf : node.isLeaf = false := by simpa [Node.isLeaf] using filled
  have notEmpty : node.isEmpty = false := by simp [Node.isEmpty, filled]
  rw [printed_eq, commentMark, unshown, Bool.false_and, if_neg (by decide), String.empty_append,
    bodyText, notEmpty, notLeaf, if_neg (by decide), if_neg (by decide),
    toList_composite style level node (by simpa using filled), List.map_map]
  rfl

/-- What the layout of a tree is to be: one line if that fits, and lines otherwise. -/
structure IsLaidOut (style : PrintStyle) (level : Int) (node : Node) : Prop where
  onLine : node.children = [] ∨ Fits style level node →
    (printed style level node).toList = oneLine style node
  broken : node.children ≠ [] → ¬ Fits style level node →
    '\n' ∈ (printed style level node).toList

omit unshown in
/-- Whether a composite stays on one line is decided by its own length alone, once its children
are laid out. -/
theorem staysOnLine_iff (narrow : style.indentWidth ≤ 5) (filled : node.children ≠ [])
    (children : ∀ child ∈ node.children, IsLaidOut style (level + 1) child) :
    staysOnLine style level node (childTexts style level node) = true ↔
      Fits style level node := by
  have flat : ∀ _ : (∀ child ∈ node.children,
      (printed style (level + 1) child).toList = oneLine style child),
      (flatText style node (childTexts style level node)).toList = oneLine style node := by
    intro alike
    rw [childTexts, toList_flatText style node (by simpa using filled), List.map_map,
      oneLine_composite filled]
    exact congrArg _ (List.map_congr_left alike)
  simp only [staysOnLine, Bool.and_eq_true, Bool.not_eq_true', decide_eq_true_eq,
    List.contains_eq_mem, decide_eq_false_iff_not]
  constructor
  · rintro ⟨noFeed, short⟩
    -- Without a line feed no child is broken, so that the text is the one on a single line.
    have alike : ∀ child ∈ node.children,
        (printed style (level + 1) child).toList = oneLine style child := by
      intro child member
      refine (children child member).onLine (or_iff_not_imp_left.mpr fun composite => ?_)
      by_contra unfit
      have feed := (children child member).broken composite unfit
      rw [childTexts, toList_flatText style node (by simpa using filled),
        mem_assembled (by decide)] at noFeed
      exact noFeed (Or.inr ⟨_, List.mem_map_of_mem (List.mem_map_of_mem member), Or.inr feed⟩)
    rw [Fits, ← flat alike, String.length_toList]
    exact short
  · intro fits
    have alike : ∀ child ∈ node.children,
        (printed style (level + 1) child).toList = oneLine style child :=
      fun child member => (children child member).onLine (Or.inr (fits.child narrow member))
    rw [← String.length_toList, flat alike]
    exact ⟨feed_not_mem_oneLine style node, fits⟩

/-- Every tree is laid out as it is to be. -/
theorem isLaidOut (narrow : style.indentWidth ≤ 5) (node : Node) (level : Int) :
    IsLaidOut style level node := by
  induction node using Node.inductionOnChildren generalizing level with
  | step node ih =>
      have children : ∀ child ∈ node.children, IsLaidOut style (level + 1) child :=
        fun child member => ih child member (level + 1)
      constructor
      · intro stays
        by_cases childless : node.children = []
        · exact printed_leaf unshown childless
        · have fits := stays.resolve_left childless
          rw [printed_composite unshown childless,
            (staysOnLine_iff narrow childless children).mpr fits, oneLine_composite childless]
          exact congrArg _ (List.map_congr_left fun child member =>
            (children child member).onLine (Or.inr (fits.child narrow member)))
      · intro filled unfit
        have broken : staysOnLine style level node (childTexts style level node) = false :=
          Bool.eq_false_iff.mpr ((staysOnLine_iff narrow filled children).not.mpr unfit)
        obtain ⟨child, member⟩ := List.exists_mem_of_ne_nil _ filled
        rw [printed_composite unshown filled, broken, mem_assembled (by decide)]
        exact Or.inr ⟨_, List.mem_map_of_mem member, Or.inl (by simp [gap])⟩

/-- What stands in front of each child of a composite: a blank if the composite fits into its
line, else a line feed and the indentation of the next level. -/
def lead (style : PrintStyle) (level : Int) (node : Node) : List Char :=
  gap style level (decide (Fits style level node))

theorem printed_of_filled (narrow : style.indentWidth ≤ 5) (filled : node.children ≠ []) :
    (printed style level node).toList =
      assembled (head style node).toList (lead style level node)
        (node.children.map fun child => (printed style (level + 1) child).toList) := by
  have decided : staysOnLine style level node (childTexts style level node) =
      decide (Fits style level node) :=
    Bool.eq_iff_iff.mpr (by
      rw [decide_eq_true_iff]
      exact staysOnLine_iff narrow filled fun child _ => isLaidOut unshown narrow child _)
  rw [printed_composite unshown filled, decided, lead]

end

theorem printed_starts (style : PrintStyle) (unshown : style.showComments = false) (level : Int)
    (node : Node) : ∃ first rest,
      (printed style level node).toList = first :: rest ∧ isBlank first = false := by
  by_cases childless : node.children = []
  · rw [printed_leaf unshown childless, oneLine_leaf childless, leafText]
    split
    · exact ⟨'(', [')'], by decide, by decide⟩
    · rw [String.toList_append, atom]
      split
      · rename_i bare
        rw [Bool.and_eq_true, List.all_eq_true] at bare
        cases data_eq : node.data.toList with
        | nil => simp [String.toList_eq_nil_iff.mp data_eq] at bare
        | cons first rest =>
            have isBare := bare.2 first (by simp [data_eq])
            refine ⟨first, _, rfl, ?_⟩
            simpa using (Bool.and_eq_true_iff.mp isBare).1
      · exact ⟨'"', _, by rw [toList_quotedData]; rfl, by decide⟩
  · rw [printed_composite unshown childless, assembled, toList_head]
    exact ⟨'(', _, rfl, by decide⟩

/-- In the print of a tree whose root is at a level, a subtree that is at another level stands
between two texts. -/
inductive StandsIn (style : PrintStyle) (tree : Node) (level : Int) :
    Node → Int → List Char → List Char → Prop
  | root : StandsIn style tree level tree level [] []
  | child {parent child : Node} {above : Int} {before after : List Char}
      {earlier later : List Node} (inside : StandsIn style tree level parent above before after)
      (children_eq : parent.children = earlier ++ child :: later) :
      StandsIn style tree level child (above + 1)
        (before ++ ((head style parent).toList ++
          (earlier.flatMap fun sibling => lead style above parent ++
            (printed style (above + 1) sibling).toList)) ++ lead style above parent)
        ((later.flatMap fun sibling => lead style above parent ++
            (printed style (above + 1) sibling).toList) ++ ')' :: after)

namespace StandsIn

variable {tree : Node} {place : Int} {before after : List Char}

/-- Every node below one that stands in a print stands there too. -/
theorem exists_of_mem {part : Node} (member : part ∈ node.nodes)
    (inside : StandsIn style tree level node place before after) :
    ∃ place before after, StandsIn style tree level part place before after := by
  induction node using Node.inductionOnChildren generalizing place before after with
  | step node ih =>
      rcases Node.mem_nodes_iff.mp member with rfl | ⟨child, childMem, below⟩
      · exact ⟨_, _, _, inside⟩
      · obtain ⟨earlier, later, children_eq⟩ := List.append_of_mem childMem
        exact ih child childMem below (.child inside children_eq)

theorem printed_eq (unshown : style.showComments = false) (narrow : style.indentWidth ≤ 5)
    (inside : StandsIn style tree level node place before after) :
    (printed style level tree).toList =
      before ++ ((printed style place node).toList ++ after) := by
  induction inside with
  | root => simp
  | @child parent child above before after earlier later inside children_eq ih =>
      have filled : parent.children ≠ [] := by simp [children_eq]
      rw [ih, printed_of_filled unshown narrow filled, children_eq, assembled]
      simp [List.flatMap_map]

/-- The parent of a composite that does not fit does not fit either, so that the composite begins
a line. -/
theorem before_eq (narrow : style.indentWidth ≤ 5)
    (inside : StandsIn style tree level node place before after)
    (unfit : ¬ Fits style place node) :
    before = [] ∨
      ∃ front, before = front ++ '\n' :: List.replicate (style.indentAt place) ' ' := by
  cases inside with
  | root => exact Or.inl rfl
  | @child parent _ above before after earlier later inside children_eq =>
      have parentUnfit : ¬ Fits style above parent := fun fits =>
        unfit (fits.child narrow (by simp [children_eq]))
      have broken : lead style above parent =
          '\n' :: List.replicate (style.indentAt (above + 1)) ' ' := by
        rw [lead, decide_eq_false parentUnfit, gap, if_neg (by decide)]
      rw [broken]
      exact Or.inr ⟨_, rfl⟩

end StandsIn

end TreePrinter

open TreePrinter in
/-- Wherever a composite stands in a printed tree without comments, it is on a single line exactly
if its indentation and its rendering on one line fit into the width, and it is that rendering then.
Otherwise its head begins a line, and so does each child, indented by one level more. -/
theorem Node.print_on_line_iff {style : PrintStyle} (unshown : style.showComments = false)
    (nonneg : 0 ≤ style.indentWidth) (narrow : style.indentWidth ≤ 5) (tree : Node)
    (level : Int) :
    ∃ text : String, tree.print style level = .ok text ∧
      (∀ node ∈ tree.nodes, ∃ place before after,
        StandsIn style tree level node place before after) ∧
      ∀ node place before after, StandsIn style tree level node place before after →
        ∃ part : String, node.print style place = .ok part ∧
          text.toList = before ++ (part.toList ++ after) ∧
          (∃ first rest, part.toList = first :: rest ∧ isBlank first = false) ∧
          (node.children ≠ [] →
            ('\n' ∉ part.toList ↔
              style.indentWidth * place + ((oneLine style node).length : Int) ≤ style.width) ∧
            ('\n' ∉ part.toList → part.toList = oneLine style node) ∧
            ('\n' ∈ part.toList →
              part.toList = assembled (head style node).toList
                ('\n' :: List.replicate (style.indentWidth * (place + 1)).toNat ' ')
                (node.children.map fun child => (printed style (place + 1) child).toList) ∧
              (before = [] ∨ ∃ front, before =
                front ++ '\n' :: List.replicate (style.indentWidth * place).toNat ' '))) := by
  have shows : ∀ part, Shows style part := fun part shown => by rw [unshown] at shown; cases shown
  have width_eq : (style.indentWidth.toNat : Int) = style.indentWidth := Int.toNat_of_nonneg nonneg
  refine ⟨_, print_eq_printed (fun part _ => shows part) level,
    fun node member => StandsIn.root.exists_of_mem member, ?_⟩
  intro node place before after inside
  refine ⟨_, print_eq_printed (fun part _ => shows part) place, inside.printed_eq unshown narrow,
    printed_starts style unshown place node, fun filled => ?_⟩
  have laidOut := isLaidOut unshown narrow node place
  have fits_iff : '\n' ∉ (printed style place node).toList ↔ Fits style place node := by
    constructor
    · exact fun noFeed => by_contra fun unfit => noFeed (laidOut.broken filled unfit)
    · exact fun fits => laidOut.onLine (Or.inr fits) ▸ feed_not_mem_oneLine style node
  refine ⟨?_, fun noFeed => laidOut.onLine (Or.inr (fits_iff.mp noFeed)), fun feed => ⟨?_, ?_⟩⟩
  · rw [fits_iff, Fits, width_eq]
  · have unfit : ¬ Fits style place node := fun fits => fits_iff.mpr fits feed
    rw [printed_of_filled unshown narrow filled, lead, decide_eq_false unfit, ← width_eq]
    rfl
  · have unfit : ¬ Fits style place node := fun fits => fits_iff.mpr fits feed
    rw [← width_eq]
    exact inside.before_eq narrow unfit

open TreePrinter in
/-- The inner composite would fit into ten columns without its indentation, but not with it. -/
theorem Node.print_on_line_iff_indented :
    ∃ text part : String,
      Node.print ⟨";", [⟨"+", [⟨"a", [], [], none, none⟩], [], none, none⟩,
        ⟨"gamma", [], [], none, none⟩], [], none, none⟩ ⟨5, 10, false, false⟩ 0 = .ok text ∧
      Node.print ⟨"+", [⟨"a", [], [], none, none⟩], [], none, none⟩ ⟨5, 10, false, false⟩ 1 =
        .ok part ∧
      '\n' ∈ part.toList ∧
      (∃ after, text.toList = "(\";\"\n     ".toList ++ (part.toList ++ after)) := by
  obtain ⟨text, printed_eq, -, places⟩ := @Node.print_on_line_iff ⟨5, 10, false, false⟩ rfl
    (by decide) (by decide) ⟨";", [⟨"+", [⟨"a", [], [], none, none⟩], [], none, none⟩,
      ⟨"gamma", [], [], none, none⟩], [], none, none⟩ 0
  obtain ⟨part, part_eq, text_eq, -, composite⟩ :=
    places _ _ _ _ (@StandsIn.child _ _ _ _ _ _ _ _ [] _ .root rfl)
  refine ⟨text, part, printed_eq, part_eq, ?_, _, text_eq.trans (congrArg (· ++ _) (by decide))⟩
  by_contra noFeed
  exact absurd ((composite (by simp)).1.mp noFeed) (by decide)

end RubySyntax
