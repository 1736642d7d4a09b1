import RubySyntax.NumberText
import RubySyntax.SourceText
import RubySyntax.YamlBlockScalar
import RubySyntax.YamlFlowScalar

/-!
# Tokens of YAML

The tokens of a text show its block structure: the indentation of an entry
opens and closes blocks.  Whether a scalar is a key is only known at the colon
behind it, so a token that may start a key is held back until its colon is found
or can no longer follow, and the text is read only as far as that takes.
-/

namespace RubySyntax

/-- An instruction in front of a document. -/
inductive YamlDirective where
  /-- The version of the language. -/
  | version (major : Int)
  /-- A handle that abbreviates the beginning of tags. -/
  | tagHandle (handle beginning : List Nat)
  /-- An unknown instruction. -/
  | other
deriving DecidableEq, Repr

inductive YamlToken where
  | directive (content : YamlDirective)
  | documentStart
  | documentEnd
  | blockSequenceStart
  | blockMappingStart
  | blockEnd
  | flowSequenceStart
  | flowSequenceEnd
  | flowMappingStart
  | flowMappingEnd
  | blockEntry
  | flowEntry
  | key
  | value
  | alias (name : List Char)
  | anchor (name : List Char)
  /-- A tag with its handle, if it has one. -/
  | tag (handle : Option (List Nat)) (suffix : List Nat)
  | scalar (content : List Nat) (isPlain : Bool)
deriving DecidableEq, Repr

/-- A place in front of what may turn out to be a key. -/
structure KeyCandidate where
  /-- The number of tokens in front of it. -/
  number : Nat
  /-- Whether the block leaves no other choice than a key. -/
  isRequired : Bool
  index : Nat
  line : Nat
  column : Nat
deriving DecidableEq, Repr

structure YamlScan where
  cursor : YamlCursor
  /-- How many brackets are open. -/
  depth : Int
  /-- The indentation of the current block, and those of the blocks around it. -/
  indent : Int
  outerIndents : List Int
  /-- Whether a key may start here. -/
  allowsKey : Bool
  /-- The candidate of each bracket depth. -/
  candidates : List (Int × KeyCandidate)
  /-- The tokens that have been read but not taken. -/
  pending : List YamlToken
  /-- How many tokens have been taken. -/
  taken : Nat
  /-- Whether the end of the text has been read. -/
  isDone : Bool

namespace YamlScan

def start (text : List Char) : YamlScan where
  cursor := .ofText text
  depth := 0
  indent := -1
  outerIndents := []
  allowsKey := true
  candidates := []
  pending := []
  taken := 0
  isDone := false

def isInsideBrackets (scan : YamlScan) : Bool :=
  scan.depth != 0

def push (token : YamlToken) (scan : YamlScan) : YamlScan :=
  { scan with pending := scan.pending ++ [token] }

/-- The scan with tokens inserted behind a number of all tokens of the text. -/
def insertAt (number : Nat) (tokens : List YamlToken) (scan : YamlScan) : YamlScan :=
  let (before, behind) := scan.pending.splitAt (number - scan.taken)
  { scan with pending := before ++ tokens ++ behind }

def forward (count : Nat) (scan : YamlScan) : YamlScan :=
  { scan with cursor := scan.cursor.forward count }

def moveTo (cursor : YamlCursor) (scan : YamlScan) : YamlScan :=
  { scan with cursor := cursor }

def allowKey (allowed : Bool) (scan : YamlScan) : YamlScan :=
  { scan with allowsKey := allowed }

/-! ### Candidates for keys -/

/-- Whether the colon of a candidate can no longer follow: keys end on their line and after
1024 characters. -/
def isStale (scan : YamlScan) (candidate : KeyCandidate) : Bool :=
  candidate.line != scan.cursor.line || candidate.index + 1024 < scan.cursor.index

/-- Drops the candidates whose colon can no longer follow. -/
def dropStale (scan : YamlScan) : Except YamlFault YamlScan :=
  if scan.candidates.any fun entry => scan.isStale entry.2 && entry.2.isRequired then
    .error .malformed
  else .ok { scan with
    candidates := scan.candidates.filter fun entry => !scan.isStale entry.2 }

/-- Drops the candidate of the current bracket depth. -/
def dropCandidate (scan : YamlScan) : Except YamlFault YamlScan :=
  match scan.candidates.lookup scan.depth with
  | none => .ok scan
  | some candidate =>
    if candidate.isRequired then .error .malformed
    else .ok { scan with candidates := scan.candidates.filter fun entry => entry.1 != scan.depth }

/-- Remembers the current place as a candidate, if a key may start here. -/
def addCandidate (scan : YamlScan) : Except YamlFault YamlScan :=
  if !scan.allowsKey then .ok scan
  else do
    let scan ← scan.dropCandidate
    let candidate : KeyCandidate :=
      { number := scan.taken + scan.pending.length
        isRequired := !scan.isInsideBrackets && scan.indent == (scan.cursor.column : Int)
        index := scan.cursor.index
        line := scan.cursor.line
        column := scan.cursor.column }
    return { scan with candidates := (scan.depth, candidate) :: scan.candidates }

/-! ### Indentation -/

/-- Closes the blocks that are indented further than a column, given the indentations of the
blocks around them. -/
def closeBlocksIn (column : Int) (outer : List Int) (scan : YamlScan) : YamlScan :=
  if scan.indent ≤ column then scan
  else
    match outer with
    | [] => scan
    | indent :: outer =>
      closeBlocksIn column outer
        { scan.push .blockEnd with indent := indent, outerIndents := outer }

/-- Closes the blocks that are indented further than a column. -/
def closeBlocks (column : Int) (scan : YamlScan) : YamlScan :=
  if scan.isInsideBrackets then scan else closeBlocksIn column scan.outerIndents scan

/-- Opens a block at a column that is indented further than the current one. -/
def openBlock (token : YamlToken) (scan : YamlScan) : YamlScan :=
  let column : Int := scan.cursor.column
  if scan.indent < column then
    { scan.push token with indent := column, outerIndents := scan.indent :: scan.outerIndents }
  else scan

/-! ### Skipping to the next token -/

/-- Skips spaces, comments and line breaks.  A line break outside brackets allows a key. -/
def skipLines : Nat → YamlScan → YamlScan
  | 0, scan => scan
  | bound + 1, scan =>
    let cursor := scan.cursor.skipSpaces.skipComment
    match cursor.takeBreak? with
    | none => scan.moveTo cursor
    | some (_, next) =>
      skipLines bound ((scan.moveTo next).allowKey (scan.allowsKey || !scan.isInsideBrackets))

def skipToToken (scan : YamlScan) : YamlScan :=
  let scan := if scan.cursor.index == 0 && scan.cursor.isAt YamlCharacter.byteOrderMark then
    scan.forward 1 else scan
  scan.skipLines (scan.cursor.rest.length + 1)

/-! ### Names, tags and directives -/

def isNameCharacter (character : Char) : Bool :=
  character.isAlphanum || character == '-' || character == '_'

/-- The name of an anchor or alias behind its indicator, and the place behind it. -/
def readAnchorName (cursor : YamlCursor) : Except YamlFault (List Char × YamlCursor) :=
  let (name, next) := cursor.step.takeWhile isNameCharacter
  let ends := YamlCharacter.endsOr (fun character =>
    YamlCharacter.isSeparator character || "?:,]\x7d%@\x60".toList.contains character) next.rest
  if name.isEmpty || !ends then .error .malformed else .ok (name, next)

/-- A character that stands for itself in a tag. -/
def isTagCharacter (character : Char) : Bool :=
  character.isAlphanum || "-;/?:@&=+$,_.!~*'()[]".toList.contains character

/-- The bytes that escapes in a tag give, and the place behind them. -/
def readTagBytes : Nat → YamlCursor → Except YamlFault (List Nat × YamlCursor)
  | 0, cursor => .ok ([], cursor)
  | bound + 1, cursor =>
    match cursor.rest with
    | '%' :: high :: low :: _ =>
      match hexDigitValue? high, hexDigitValue? low with
      | some high, some low => do
        let (bytes, last) ← readTagBytes bound (cursor.forward 3)
        return ((high * 16 + low) :: bytes, last)
      | _, _ => .error .malformed
    | '%' :: _ => .error .malformed
    | _ => .ok ([], cursor)

/-- The characters of a tag, its escapes decoded, and the place behind it. -/
def readTagText : Nat → YamlCursor → Except YamlFault (List Nat × YamlCursor)
  | 0, cursor => .ok ([], cursor)
  | bound + 1, cursor =>
    if cursor.isAt '%' then do
      let (bytes, next) ← readTagBytes (cursor.rest.length + 1) cursor
      match decodeUtf8? bytes with
      | none => throw .malformed
      | some characters =>
        let (content, last) ← readTagText bound next
        return (characters.map Char.toNat ++ content, last)
    else
      let (characters, next) := cursor.takeWhile isTagCharacter
      if characters.isEmpty then .ok ([], cursor)
      else do
        let (content, last) ← readTagText bound next
        return (characters.map Char.toNat ++ content, last)

/-- The text of a tag, which may not be empty, and the place behind it. -/
def readTagSuffix (cursor : YamlCursor) : Except YamlFault (List Nat × YamlCursor) :=
  if YamlCharacter.endsOr (fun character => !isTagCharacter character && character != '%')
      cursor.rest then .error .malformed
  else readTagText (cursor.rest.length + 1) cursor

/-- The handle of a tag between exclamation marks, and the place behind it. -/
def readTagHandle (cursor : YamlCursor) : Except YamlFault (List Nat × YamlCursor) :=
  if !cursor.isAt '!' then .error .malformed
  else
    let (name, next) := cursor.step.takeWhile isNameCharacter
    if name.isEmpty && next.isAt ' ' then .ok ([0x21], next)
    else if next.isAt '!' then .ok (0x21 :: name.map Char.toNat ++ [0x21], next.step)
    else .error .malformed

/-- Whether a tag has a handle that ends in an exclamation mark. -/
def hasHandle (text : List Char) : Bool :=
  (text.takeWhile fun character => !YamlCharacter.isSpaceOrBreak character).contains '!'

/-- The tag that is next, and the place behind it. -/
def readTag (cursor : YamlCursor) : Except YamlFault (YamlToken × YamlCursor) := do
  let (token, next) ←
    if cursor.behind.head? = some '<' then do
      let (suffix, next) ← readTagSuffix (cursor.forward 2)
      if next.isAt '>' then pure (YamlToken.tag none suffix, next.step) else throw .malformed
    else if YamlCharacter.atSeparator cursor.behind then
      pure (YamlToken.tag none [0x21], cursor.step)
    else if hasHandle cursor.behind then do
      let (handle, next) ← readTagHandle cursor
      let (suffix, next) ← readTagSuffix next
      pure (YamlToken.tag (some handle) suffix, next)
    else do
      let (suffix, next) ← readTagSuffix cursor.step
      pure (YamlToken.tag (some [0x21]) suffix, next)
  if next.atSpaceOrLineEnd then return (token, next) else throw .malformed

/-- The number that digits of a version write, and the place behind them. -/
def readVersionNumber (cursor : YamlCursor) : Except YamlFault (Int × YamlCursor) :=
  let (digits, next) := cursor.takeWhile Char.isDigit
  match readInteger 10 digits with
  | .ok number => .ok (number, next)
  | .error .malformed => .error .malformed
  | .error (.tooLong count) => .error (.badValue (tooManyDigitsMessage count))

/-- What follows the name of a directive, and the place behind it. -/
def readDirectiveValue (name : String) (cursor : YamlCursor) :
    Except YamlFault (YamlDirective × YamlCursor) := do
  if name = "YAML" then
    let (major, next) ← readVersionNumber cursor.skipSpaces
    if !next.isAt '.' then throw .malformed
    let (_, next) ← readVersionNumber next.step
    if next.atSpaceOrLineEnd then return (.version major, next) else throw .malformed
  else if name = "TAG" then
    let (handle, next) ← readTagHandle cursor.skipSpaces
    if !next.isAt ' ' then throw .malformed
    let (beginning, next) ← readTagSuffix next.skipSpaces
    if next.atSpaceOrLineEnd then return (.tagHandle handle beginning, next)
    else throw .malformed
  else
    return (.other, cursor.skipWhile fun character => !YamlCharacter.isBreak character)

/-- The directive that is next, and the start of the line behind it. -/
def readDirective (cursor : YamlCursor) : Except YamlFault (YamlDirective × YamlCursor) := do
  let (name, next) := cursor.step.takeWhile isNameCharacter
  if name.isEmpty || !next.atSpaceOrLineEnd then throw .malformed
  let (directive, next) ← readDirectiveValue (String.ofList name) next
  return (directive, ← next.finishLine)

/-! ### One token -/

/-- Closes all blocks and candidates in front of what stands between documents. -/
def leaveDocument (scan : YamlScan) : Except YamlFault YamlScan := do
  let scan ← (scan.closeBlocks (-1)).dropCandidate
  return scan.allowKey false

def fetchOpening (token : YamlToken) (scan : YamlScan) : Except YamlFault YamlScan := do
  let scan ← scan.addCandidate
  return (({ scan with depth := scan.depth + 1 }.allowKey true).push token).forward 1

def fetchClosing (token : YamlToken) (scan : YamlScan) : Except YamlFault YamlScan := do
  let scan ← scan.dropCandidate
  return (({ scan with depth := scan.depth - 1 }.allowKey false).push token).forward 1

def fetchComma (scan : YamlScan) : Except YamlFault YamlScan := do
  let scan ← (scan.allowKey true).dropCandidate
  return (scan.push .flowEntry).forward 1

/-- The dash of an item, which opens a block if it is indented further. -/
def fetchDash (scan : YamlScan) : Except YamlFault YamlScan := do
  if !scan.isInsideBrackets && !scan.allowsKey then throw .malformed
  let scan := if scan.isInsideBrackets then scan else scan.openBlock .blockSequenceStart
  let scan ← (scan.allowKey true).dropCandidate
  return (scan.push .blockEntry).forward 1

/-- The question mark of a key, which opens a block if it is indented further. -/
def fetchKeyMark (scan : YamlScan) : Except YamlFault YamlScan := do
  if !scan.isInsideBrackets && !scan.allowsKey then throw .malformed
  let scan := if scan.isInsideBrackets then scan else scan.openBlock .blockMappingStart
  let scan ← (scan.allowKey (!scan.isInsideBrackets)).dropCandidate
  return (scan.push .key).forward 1

/-- The colon of a value, which makes a key of the candidate in front of it. -/
def fetchColon (scan : YamlScan) : Except YamlFault YamlScan := do
  match scan.candidates.lookup scan.depth with
  | some candidate =>
    let column : Int := candidate.column
    let opens := !scan.isInsideBrackets && scan.indent < column
    let scan := { scan with
      candidates := scan.candidates.filter fun entry => entry.1 != scan.depth
      indent := if opens then column else scan.indent
      outerIndents := if opens then scan.indent :: scan.outerIndents else scan.outerIndents
      allowsKey := false }
    let tokens := if opens then [YamlToken.blockMappingStart, .key] else [.key]
    return ((scan.insertAt candidate.number tokens).push .value).forward 1
  | none =>
    if !scan.isInsideBrackets && !scan.allowsKey then throw .malformed
    let scan := if scan.isInsideBrackets then scan else scan.openBlock .blockMappingStart
    let scan ← (scan.allowKey (!scan.isInsideBrackets)).dropCandidate
    return (scan.push .value).forward 1

/-- A token that may start a key. -/
def fetchNode (read : YamlScan → Except YamlFault (YamlToken × YamlCursor)) (scan : YamlScan) :
    Except YamlFault YamlScan := do
  let scan := (← scan.addCandidate).allowKey false
  let (token, next) ← read scan
  return (scan.push token).moveTo next

def fetchQuoted (quote : Char) (scan : YamlScan) : Except YamlFault YamlScan :=
  scan.fetchNode fun scan => do
    let (content, next) ← YamlFlowScalar.quoted quote scan.cursor
    return (.scalar content false, next)

/-- A scalar without quotes, behind which a line break allows a key. -/
def fetchPlain (scan : YamlScan) : Except YamlFault YamlScan := do
  let scan ← scan.addCandidate
  let plain := YamlFlowScalar.plain scan.isInsideBrackets (scan.indent + 1).toNat scan.cursor
  let token := YamlToken.scalar (plain.content.map Char.toNat) true
  return ((scan.allowKey plain.brokenBehind).push token).moveTo plain.next

/-- A block scalar, behind which a key may start. -/
def fetchBlockScalar (folded : Bool) (scan : YamlScan) : Except YamlFault YamlScan := do
  let scan ← (scan.allowKey true).dropCandidate
  let (content, next) ← YamlBlockScalar.read folded scan.indent scan.cursor
  return (scan.push (.scalar (content.map Char.toNat) false)).moveTo next

/-- A directive or the marker of a document boundary. -/
def fetchBoundary (read : YamlCursor → Except YamlFault (YamlToken × YamlCursor))
    (scan : YamlScan) : Except YamlFault YamlScan := do
  let scan ← scan.leaveDocument
  let (token, next) ← read scan.cursor
  return (scan.push token).moveTo next

/-- Characters that start something else than a plain scalar. -/
def indicators : List Char :=
  "-?:,[]\x7b\x7d#&*!|>'\"%@\x60".toList

def startsPlain (scan : YamlScan) (character : Char) : Bool :=
  !(YamlCharacter.isSeparator character || indicators.contains character) ||
    (!YamlCharacter.atSeparator scan.cursor.behind &&
      (character == '-' ||
        (!scan.isInsideBrackets && (character == '?' || character == ':'))))

/-- Reads the token that starts with the given character. -/
def fetchFrom (character : Char) (scan : YamlScan) : Except YamlFault YamlScan :=
  let cursor := scan.cursor
  let atStart := cursor.column == 0
  let alone := YamlCharacter.atSeparator cursor.behind
  if character == '%' && atStart then
    scan.fetchBoundary fun cursor => do
      let (directive, next) ← readDirective cursor
      return (.directive directive, next)
  else if atStart && cursor.atDocumentMarker "---" then
    scan.fetchBoundary fun cursor => return (.documentStart, cursor.forward 3)
  else if atStart && cursor.atDocumentMarker "..." then
    scan.fetchBoundary fun cursor => return (.documentEnd, cursor.forward 3)
  else if character == '[' then scan.fetchOpening .flowSequenceStart
  else if character.toNat == 0x7B then scan.fetchOpening .flowMappingStart
  else if character == ']' then scan.fetchClosing .flowSequenceEnd
  else if character.toNat == 0x7D then scan.fetchClosing .flowMappingEnd
  else if character == ',' then scan.fetchComma
  else if character == '-' && alone then scan.fetchDash
  else if character == '?' && (scan.isInsideBrackets || alone) then scan.fetchKeyMark
  else if character == ':' && (scan.isInsideBrackets || alone) then scan.fetchColon
  else if character == '*' then
    scan.fetchNode fun scan => do
      let (name, next) ← readAnchorName scan.cursor
      return (.alias name, next)
  else if character == '&' then
    scan.fetchNode fun scan => do
      let (name, next) ← readAnchorName scan.cursor
      return (.anchor name, next)
  else if character == '!' then scan.fetchNode fun scan => readTag scan.cursor
  else if character == '|' && !scan.isInsideBrackets then scan.fetchBlockScalar false
  else if character == '>' && !scan.isInsideBrackets then scan.fetchBlockScalar true
  else if character.toNat == 0x27 || character.toNat == 0x22 then scan.fetchQuoted character
  else if scan.startsPlain character then scan.fetchPlain
  else .error .malformed

/-- The scan at the end of the text, where all blocks are closed. -/
def finish (scan : YamlScan) : Except YamlFault YamlScan := do
  let scan ← (scan.closeBlocks (-1)).dropCandidate
  return { scan with allowsKey := false, candidates := [], isDone := true }

/-- Reads on up to the next token that the text writes, or to its end. -/
def fetch (scan : YamlScan) : Except YamlFault YamlScan := do
  let scan ← scan.skipToToken.dropStale
  let scan := scan.closeBlocks scan.cursor.column
  match scan.cursor.peek? with
  | some character => scan.fetchFrom character
  | none => scan.finish

/-! ### Taking tokens -/

/-- Whether the next token is known: it cannot turn out to start a key, or the text has ended. -/
def isNextKnown (scan : YamlScan) : Bool :=
  scan.isDone || (!scan.pending.isEmpty &&
    !(scan.candidates.any fun entry => entry.2.number == scan.taken))

/-- Reads on until the next token is known; each step but the last one reads a character. -/
def lookAheadWithin : Nat → YamlScan → Except YamlFault YamlScan
  | 0, scan => .ok scan
  | bound + 1, scan => do
    let scan ← scan.dropStale
    if scan.isNextKnown then return scan else lookAheadWithin bound (← scan.fetch)

/-- Reads on until the next token is known. -/
def lookAhead (scan : YamlScan) : Except YamlFault YamlScan :=
  if scan.isNextKnown then .ok scan else scan.lookAheadWithin (scan.cursor.rest.length + 2)

/-- The next token, none at the end of the text. -/
def next? (scan : YamlScan) : Option YamlToken :=
  scan.pending.head?

/-- The scan behind the next token. -/
def take (scan : YamlScan) : YamlScan :=
  { scan with pending := scan.pending.drop 1, taken := scan.taken + 1 }

end YamlScan

/-- The scan of a text, which may hold admitted characters only. -/
def scanYaml (text : List Char) : Except YamlFault YamlScan :=
  if text.all YamlCharacter.isAdmitted then .ok (.start text) else .error .malformed

end RubySyntax
