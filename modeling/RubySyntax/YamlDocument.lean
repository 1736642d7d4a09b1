import RubySyntax.YamlGraph
import RubySyntax.YamlToken

/-!
# Documents of YAML

A document is composed of tokens into a graph of scalars, sequences and mappings,
each with the tag that says what it denotes.  An alias stands for the node that
its anchor names, which may be a collection that is still being composed.
-/

namespace RubySyntax

structure YamlComposition where
  scan : YamlScan
  handles : List (List Nat × List Nat)
  /-- The anchors and the nodes that they name. -/
  anchors : List (List Char × Nat)
  graph : YamlGraph

abbrev Composing := StateT YamlComposition (Except YamlFault)

namespace YamlDocument

/-- The next token, none at the end. -/
def peek : Composing (Option YamlToken) := do
  let state ← get
  let scan ← state.scan.lookAhead
  set { state with scan := scan }
  return scan.next?

/-- Goes on behind the next token, which has been looked at. -/
def advance : Composing Unit :=
  modify fun state => { state with scan := state.scan.take }

/-- Whether the next token is one of the given ones, or the text ends. -/
def atAny (tokens : List YamlToken) : Composing Bool := do
  match ← peek with
  | some token => return tokens.contains token
  | none => return false

/-- Goes on behind the given token where it is next. -/
def takeIf (token : YamlToken) : Composing Bool := do
  if ← atAny [token] then
    advance
    return true
  else return false

/-- Goes on behind the given token, which has to be next. -/
def expect (token : YamlToken) : Composing Unit := do
  if !(← takeIf token) then throw .malformed

def addNode (node : YamlNode) : Composing Nat :=
  modifyGet fun state => (state.graph.size, { state with graph := state.graph.push node })

/-- Puts a complete node in the place of one that has been added. -/
def completeNode (number : Nat) (node : YamlNode) : Composing Unit :=
  modify fun state => { state with graph := state.graph.replace number node }

def emptyNode : Composing Nat :=
  addNode (.scalar (YamlTag.ofPlainKind .null) [])

def takeAnchor? : Composing (Option (List Char)) := do
  match ← peek with
  | some (.anchor name) => do
    advance
    return some name
  | _ => return none

/-- The tag of a node without its handle, if a tag is next. -/
def takeTag? : Composing (Option (Option (List Nat) × List Nat)) := do
  match ← peek with
  | some (.tag handle suffix) => do
    advance
    return some (handle, suffix)
  | _ => return none

def resolveTag : Option (Option (List Nat) × List Nat) → Composing (Option (List Nat))
  | none => return none
  | some (none, suffix) => return some suffix
  | some (some handle, suffix) => do
    match (← get).handles.lookup handle with
    | some beginning => return some (beginning ++ suffix)
    | none => throw .malformed

/-- The anchor and the tag of a node, in either order. -/
def takeProperties : Composing (Option (List Char) × Option (List Nat)) := do
  match ← takeAnchor? with
  | some name => do
    let tag? ← takeTag?
    return (some name, ← resolveTag tag?)
  | none => do
    match ← takeTag? with
    | none => return (none, none)
    | some tag => do
      let name? ← takeAnchor?
      return (name?, ← resolveTag (some tag))

/-- Notes the node that an anchor names. -/
def setAnchor (name? : Option (List Char)) (number : Nat) : Composing Unit :=
  match name? with
  | none => return ()
  | some name => modify fun state => { state with anchors := (name, number) :: state.anchors }

/-- Refuses an anchor that is already known. -/
def checkNewAnchor (name? : Option (List Char)) : Composing Unit := do
  match name? with
  | none => return ()
  | some name =>
    if ((← get).anchors.lookup name).isSome then throw .malformed

def nodeOfAlias (name : List Char) : Composing Nat := do
  match (← get).anchors.lookup name with
  | some number => return number
  | none => throw .malformed

/-- The tag of a scalar: the given one, or else the one that its text suggests if it is plain or
has the tag that asks for the usual kind. -/
def scalarTag (tag? : Option (List Nat)) (content : List Nat) (isPlain : Bool) : List Nat :=
  let suggested := YamlTag.ofPlainKind (PlainScalar.suggestedKind (content.map Char.ofNat))
  match tag? with
  | none => if isPlain then suggested else YamlTag.text
  | some tag => if tag = YamlTag.unspecific then suggested else tag

/-- The tag of a collection: the given one, or else the usual one. -/
def collectionTag (usual : List Nat) : Option (List Nat) → List Nat
  | none => usual
  | some tag => if tag = YamlTag.unspecific then usual else tag

/-- Composes a sequence, whose anchor is known to its items. -/
def sequenceOf (name? : Option (List Char)) (tag? : Option (List Nat))
    (items : Composing (List Nat)) : Composing Nat := do
  let tag := collectionTag YamlTag.sequence tag?
  let number ← addNode (.sequence tag [])
  setAnchor name? number
  completeNode number (.sequence tag (← items))
  return number

/-- Composes a mapping, whose anchor is known to its entries. -/
def mappingOf (name? : Option (List Char)) (tag? : Option (List Nat))
    (entries : Composing (List (Nat × Nat))) : Composing Nat := do
  let tag := collectionTag YamlTag.mapping tag?
  let number ← addNode (.mapping tag [])
  setAnchor name? number
  completeNode number (.mapping tag (← entries))
  return number

def scalarOf (name? : Option (List Char)) (tag? : Option (List Nat)) (content : List Nat)
    (isPlain : Bool) : Composing Nat := do
  let number ← addNode (.scalar (scalarTag tag? content isPlain) content)
  setAnchor name? number
  return number

/-- Where a node stands. -/
inductive Setting where
  /-- Between brackets. -/
  | flow
  /-- In a block. -/
  | block
  /-- In an entry of a block mapping, where the items of a sequence need no indentation. -/
  | entry
deriving DecidableEq, Repr

/-- Composes a node, or the empty one where one of the given tokens shows that it is left
out. -/
def unlessAt (tokens : List YamlToken) (node : Composing Nat) : Composing Nat := do
  if ← atAny tokens then emptyNode else node

/-- The node of a scalar that is left out, which needs an anchor or a tag. -/
def leftOut (name? : Option (List Char)) (tag? : Option (List Nat)) : Composing Nat :=
  if name?.isNone && tag?.isNone then throw .malformed
  else scalarOf name? tag? [] true

mutual

/-- A node with its properties; the bound limits the depth of the composition. -/
def node : Nat → Setting → Composing Nat
  | 0, _ => throw .malformed
  | bound + 1, setting => do
    match ← peek with
    | some (.alias name) => do
      advance
      nodeOfAlias name
    | _ => do
      let (name?, tag?) ← takeProperties
      let next ← peek
      checkNewAnchor name?
      match next with
      | some (.scalar content isPlain) => do
        advance
        scalarOf name? tag? content isPlain
      | some .blockEntry =>
        if setting = .entry then sequenceOf name? tag? (plainItems bound)
        else leftOut name? tag?
      | some .flowSequenceStart => do
        advance
        sequenceOf name? tag? (flowItems bound true)
      | some .flowMappingStart => do
        advance
        mappingOf name? tag? (flowEntries bound true)
      | some .blockSequenceStart =>
        if setting = .flow then leftOut name? tag?
        else do
          advance
          sequenceOf name? tag? (blockItems bound)
      | some .blockMappingStart =>
        if setting = .flow then leftOut name? tag?
        else do
          advance
          mappingOf name? tag? (blockEntries bound)
      | _ => leftOut name? tag?

def blockItems : Nat → Composing (List Nat)
  | 0 => throw .malformed
  | bound + 1 => do
    if ← takeIf .blockEntry then
      let item ← unlessAt [.blockEntry, .blockEnd] (node bound .block)
      return item :: (← blockItems bound)
    else
      expect .blockEnd
      return []

/-- The items of a sequence at the indentation of the entry that holds it. -/
def plainItems : Nat → Composing (List Nat)
  | 0 => throw .malformed
  | bound + 1 => do
    if ← takeIf .blockEntry then
      let item ← unlessAt [.blockEntry, .key, .value, .blockEnd] (node bound .block)
      return item :: (← plainItems bound)
    else return []

def blockEntries : Nat → Composing (List (Nat × Nat))
  | 0 => throw .malformed
  | bound + 1 => do
    if ← takeIf .key then
      let key ← unlessAt [.key, .value, .blockEnd] (node bound .entry)
      let value ← if ← takeIf .value then
          unlessAt [.key, .value, .blockEnd] (node bound .entry)
        else emptyNode
      return (key, value) :: (← blockEntries bound)
    else
      expect .blockEnd
      return []

/-- The items of a sequence between brackets; `first` says that none has been read. -/
def flowItems : Nat → Bool → Composing (List Nat)
  | 0, _ => throw .malformed
  | bound + 1, first => do
    if ← takeIf .flowSequenceEnd then return []
    else
      if !first then expect .flowEntry
      if ← takeIf .key then
        let number ← addNode (.mapping YamlTag.mapping [])
        let key ← unlessAt [.value, .flowEntry, .flowSequenceEnd] (node bound .flow)
        let value ← if ← takeIf .value then
            unlessAt [.flowEntry, .flowSequenceEnd] (node bound .flow)
          else emptyNode
        completeNode number (.mapping YamlTag.mapping [(key, value)])
        return number :: (← flowItems bound false)
      else if ← takeIf .flowSequenceEnd then return []
      else
        let item ← node bound .flow
        return item :: (← flowItems bound false)

/-- The entries of a mapping between braces; `first` says that none has been read. -/
def flowEntries : Nat → Bool → Composing (List (Nat × Nat))
  | 0, _ => throw .malformed
  | bound + 1, first => do
    if ← takeIf .flowMappingEnd then return []
    else
      if !first then expect .flowEntry
      if ← takeIf .key then
        let key ← unlessAt [.value, .flowEntry, .flowMappingEnd] (node bound .flow)
        let value ← if ← takeIf .value then
            unlessAt [.flowEntry, .flowMappingEnd] (node bound .flow)
          else emptyNode
        return (key, value) :: (← flowEntries bound false)
      else if ← takeIf .flowMappingEnd then return []
      else
        let key ← node bound .flow
        return (key, ← emptyNode) :: (← flowEntries bound false)

end

/-! ### Directives and the whole text -/

/-- Takes note of a directive in front of a document. -/
def addDirective (hasVersion : Bool) (handles : List (List Nat × List Nat)) :
    YamlDirective → Except YamlFault (Bool × List (List Nat × List Nat))
  | .version major =>
    if hasVersion || major != 1 then .error .malformed else .ok (true, handles)
  | .tagHandle handle beginning =>
    if (handles.lookup handle).isSome then .error .malformed
    else .ok (hasVersion, handles ++ [(handle, beginning)])
  | .other => .ok (hasVersion, handles)

def directives (hasVersion : Bool) (handles : List (List Nat × List Nat)) :
    Nat → Composing (List (List Nat × List Nat))
  | 0 => throw .malformed
  | bound + 1 => do
    match ← peek with
    | some (.directive directive) => do
      advance
      let (hasVersion, handles) ← addDirective hasVersion handles directive
      directives hasVersion handles bound
    | _ => return handles

def skipDocumentEnds : Nat → Composing Unit
  | 0 => return ()
  | bound + 1 => do
    if ← takeIf .documentEnd then skipDocumentEnds bound

def atEnd : Composing Bool := do
  return (← peek).isNone

def atDirective : Composing Bool := do
  match ← peek with
  | some (.directive _) => return true
  | _ => return false

/-- The handles that the directives in front of a document define, up to its start marker. -/
def startDocument (bound : Nat) : Composing (List (List Nat × List Nat)) := do
  let handles ← directives false [] bound
  expect .documentStart
  return handles

/-- The root of a document that has a start marker. -/
def explicitDocument (bound : Nat) : Composing Nat := do
  let handles ← startDocument bound
  modify fun state => { state with handles := handles ++ YamlTag.standardHandles }
  if (← atEnd) || (← atDirective) || (← atAny [.documentStart, .documentEnd]) then emptyNode
  else node bound .block

def refuseDocument (bound : Nat) : Composing Unit := do
  if !(← atEnd) then
    let _ ← startDocument bound
    throw .malformed

/-- The root of the only document of a text, none if the text has no document. -/
def single (bound : Nat) : Composing (Option Nat) := do
  let isExplicit := (← atDirective) || (← atAny [.documentStart])
  if ← atEnd then return none
  let root ← if isExplicit then explicitDocument bound else node bound .block
  skipDocumentEnds bound
  refuseDocument bound
  return some root

end YamlDocument

/-- The graph of the only document of a text and the number of its root, none if the text has no
document. -/
def readYamlDocument (text : List Char) : Except YamlFault (Option (YamlGraph × Nat)) := do
  let state : YamlComposition :=
    { scan := ← scanYaml text, handles := YamlTag.standardHandles, anchors := [], graph := .empty }
  let (root?, state) ← (YamlDocument.single (4 * text.length + 16)).run state
  return root?.map fun root => (state.graph, root)

end RubySyntax
