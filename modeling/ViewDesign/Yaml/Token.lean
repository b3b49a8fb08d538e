import ViewDesign.Document.Node
import ViewDesign.Yaml.ScalarText

/-!
# YAML tokens

`Token.scan` cuts a text into tokens.  Two kinds of token have no character of their own: the start
and end of a block collection follow from the indentation, and the mark of a key is put in front of
a token once the colon after it is found.

* `Token`         the tokens;
* `SimpleKey`     a place where a key may have begun;
* `Scan`          the state of a scan;
* `Token.scan`    all tokens of a text, `none` for a text with a fault.
-/

namespace ViewDesign.Yaml

/-- A token. -/
inductive Token where
  | documentStart
  | documentEnd
  | directive
  | blockSequenceStart
  | blockMappingStart
  | blockEnd
  | flowSequenceStart
  | flowSequenceEnd
  | flowMappingStart
  | flowMappingEnd
  | blockEntry
  | flowEntry
  | key
  | value
  | alias (name : String)
  | anchor (name : String)
  | tag (handle suffix : String)
  | scalar (plain : Bool) (text : String)
deriving Repr, DecidableEq, Inhabited

/-- A place where a key may have begun, and whether one must have. -/
structure SimpleKey where
  possible : Bool := false
  required : Bool := false
  /-- the number of tokens before it -/
  number : Nat := 0
  index : Nat := 0
  line : Nat := 0
  col : Nat := 0
deriving Inhabited

/-- The state of a scan. -/
structure Scan where
  cursor : Cursor
  tokens : Array Token := #[]
  /-- a key may begin at the next token -/
  keyAllowed : Bool := true
  /-- the keys that may have begun, one for each flow level, the innermost first -/
  keys : List SimpleKey := [{}]
  indent : Int := -1
  /-- the indentations around the present one -/
  outer : List Int := []
  flowLevel : Nat := 0
  /-- right after a quoted scalar a colon needs no blank -/
  adjacentAt : Nat := 0
deriving Inhabited

namespace Scan

/-! ## Small steps -/

/-- Adds a token. -/
def push (s : Scan) (t : Token) : Scan := { s with tokens := s.tokens.push t }

/-- Puts a token before the one with a given number. -/
def insertAt (s : Scan) (n : Nat) (t : Token) : Scan :=
  { s with tokens := s.tokens.extract 0 n ++ #[t] ++ s.tokens.extract n s.tokens.size }

/-- Moves the cursor. -/
def move (s : Scan) (c : Cursor) : Scan := { s with cursor := c }

/-- Says whether a key may begin next. -/
def allowKey (s : Scan) (allowed : Bool) : Scan := { s with keyAllowed := allowed }

/-- Opens a block collection at a column to the right of the present indentation. -/
def openBlock (s : Scan) (col : Nat) (number : Option Nat) (t : Token) : Scan :=
  if 0 < s.flowLevel then s
  else if s.indent < (col : Int) then
    let s := { s with outer := s.indent :: s.outer, indent := col }
    match number with
    | some n => s.insertAt n t
    | none => s.push t
  else s

/-- Closes the block collections to the right of a column. -/
def closeBlocks (s : Scan) (col : Int) : Scan :=
  if 0 < s.flowLevel then s else go s.outer s
where
  go : List Int → Scan → Scan
    | [], s => s
    | up :: outer, s =>
      if col < s.indent then go outer { s.push .blockEnd with indent := up, outer := outer } else s

/-- Gives up the key of this level; a key that must be one cannot be given up. -/
def dropKey (s : Scan) : Option Scan :=
  match s.keys with
  | [] => some s
  | k :: outer =>
    if k.possible && k.required then none
    else some { s with keys := { k with possible := false } :: outer }

/-- Notes that a key may begin here. -/
def noteKey (s : Scan) : Option Scan := do
  if s.keyAllowed then
    let s ← s.dropKey
    let c := s.cursor
    let k : SimpleKey :=
      { possible := true
        required := decide (0 < s.flowLevel) && decide (s.indent = (c.col : Int))
        number := s.tokens.size
        index := c.index
        line := c.line
        col := c.col }
    return { s with keys := k :: s.keys.drop 1 }
  else return s

/-- A key has to end on its line and within a thousand characters. -/
def dropStaleKeys (s : Scan) : Option Scan := do
  let isStale (k : SimpleKey) : Bool :=
    k.possible && (decide (k.line < s.cursor.line) || decide (k.index + 1024 < s.cursor.index))
  if s.keys.any fun k => isStale k && k.required then none
  else
    let settle (k : SimpleKey) := if isStale k then { k with possible := false } else k
    some { s with keys := s.keys.map settle }

/-- Passes over blanks, comments and line breaks. A tab is a blank only where no key may begin. -/
def skipToToken : Nat → Scan → Scan
  | 0, s => s
  | steps + 1, s =>
    let c := s.cursor
    if c.char == ' ' || (c.char == '\t' && (decide (0 < s.flowLevel) || !s.keyAllowed)) then
      skipToToken steps (s.move c.next)
    else if isBreak c.char then
      let s := s.move c.skipBreak
      skipToToken steps (if s.flowLevel = 0 then s.allowKey true else s)
    else if c.char == '#' then skipToToken steps (s.move c.skipLine)
    else s

/-! ## Tokens -/

/-- Borders of documents close everything. -/
def border (s : Scan) (t : Token) : Option Scan := do
  let s ← (s.closeBlocks (-1)).dropKey
  return ((s.allowKey false).move (s.cursor.skip 3)).push t

/-- A number of one to nine digits. -/
def versionNumber? (c : Cursor) : Option Cursor :=
  let (digits, after) := c.span Char.isDigit
  if digits.isEmpty || decide (9 < digits.length) then none else some after

/-- The characters of a tag, some of them escaped by their bytes. -/
def isTagChar (c : Char) : Bool :=
  isWord c || c ∈ [';', '/', '?', ':', '@', '&', '=', '+', '$', ',', '.', '!', '~', '*', '\'', '(',
    ')', '[', ']']

/-- The byte of an escape in a tag. -/
def escapedByte? (c : Cursor) : Option (UInt8 × Cursor) := do
  if c.char ≠ '%' then none
  let hi ← Decimal.digitValue? 16 (c.peek 1)
  let lo ← Decimal.digitValue? 16 (c.peek 2)
  return ((16 * hi + lo).toUInt8, c.skip 3)

/-- Several escaped bytes. -/
def escapedBytes? : Nat → ByteArray → Cursor → Option (ByteArray × Cursor)
  | 0, bytes, c => some (bytes, c)
  | n + 1, bytes, c => do
    let (b, c) ← escapedByte? c
    escapedBytes? n (bytes.push b) c

/-- The number of bytes of a character, by its first byte. -/
def byteCount? (b : UInt8) : Option Nat :=
  if b < 0x80 then some 1
  else if b &&& 0xE0 == 0xC0 then some 2
  else if b &&& 0xF0 == 0xE0 then some 3
  else if b &&& 0xF8 == 0xF0 then some 4
  else none

/-- The character of a run of escaped bytes. -/
def escapedTagChar? (c : Cursor) : Option (List Char × Cursor) := do
  let (b, after) ← escapedByte? c
  let n ← byteCount? b
  let (bytes, after) ← escapedBytes? (n - 1) (ByteArray.empty.push b) after
  let text ← String.fromUTF8? bytes
  return (text.toList, after)

/-- The text of a tag. -/
def tagText? : Nat → List Char → Cursor → Option (List Char × Cursor)
  | 0, text, c => some (text, c)
  | steps + 1, text, c =>
    if c.char == '%' then do
      let (cs, c) ← escapedTagChar? c
      tagText? steps (text ++ cs) c
    else if isTagChar c.char then tagText? steps (text ++ [c.char]) c.next
    else some (text, c)

/-- The handle of a tag: an exclamation mark, a word, perhaps another mark. -/
def tagHandle (c : Cursor) : List Char × Cursor :=
  let (word, after) := c.next.span isWord
  if after.char == '!' then ('!' :: word ++ ['!'], after.next) else ('!' :: word, after)

/-- The two parts of a tag and the cursor after it. -/
def readTag (c : Cursor) : Option (String × String × Cursor) := do
  if c.peek 1 == '<' then
    let (suffix, c) ← tagText? c.fuel [] (c.skip 2)
    if suffix.isEmpty || c.char ≠ '>' then none
    return ("", String.ofList suffix, c.next)
  else
    let (handle, after) := tagHandle c
    if 2 ≤ handle.length && handle.getLast? == some '!' then
      let (suffix, after) ← tagText? after.fuel [] after
      if suffix.isEmpty then none
      return (String.ofList handle, String.ofList suffix, after)
    else
      let (suffix, after) ← tagText? after.fuel (handle.drop 1) after
      if suffix.isEmpty then return ("", "!", after)
      else return ("!", String.ofList suffix, after)

/-- The value of a directive, which says nothing that matters here. -/
def directiveValue? (name : List Char) (c : Cursor) : Option Cursor :=
  if name = "YAML".toList then do
    let c ← versionNumber? (c.span isBlank).2
    if c.char ≠ '.' then none
    versionNumber? c.next
  else if name = "TAG".toList then do
    let c := (c.span isBlank).2
    if c.char ≠ '!' then none
    let (handle, c) := tagHandle c
    if handle.length ≠ 1 && handle.getLast? ≠ some '!' then none
    let c := (c.span isBlank).2
    let (text, c) ← tagText? c.fuel [] c
    if text.isEmpty || !isGap c.char then none
    return c
  else some c.skipLine

/-- A directive with its line. -/
def readDirective (s : Scan) : Option Scan := do
  let s ← (s.closeBlocks (-1)).dropKey
  let (name, c) := s.cursor.next.span isWord
  if name.isEmpty || !isGap c.char then none
  let c := (← directiveValue? name c).skipComment
  if !isBreakOrEnd c.char then none
  return ((s.allowKey false).move c.skipBreak).push .directive

/-- The start of a flow collection, which may itself be a key. -/
def openFlow (s : Scan) (t : Token) : Option Scan := do
  let s ← s.noteKey
  if s.flowLevel = 255 then none
  let s := { s with keys := {} :: s.keys, flowLevel := s.flowLevel + 1 }
  return ((s.allowKey true).move s.cursor.next).push t

/-- The end of a flow collection. -/
def closeFlow (s : Scan) (t : Token) : Option Scan := do
  let s ← s.dropKey
  let s :=
    if 0 < s.flowLevel then { s with keys := s.keys.drop 1, flowLevel := s.flowLevel - 1 } else s
  return ((s.allowKey false).move s.cursor.next).push t

/-- A comma in a flow collection. -/
def flowComma (s : Scan) : Option Scan := do
  let s ← s.dropKey
  return ((s.allowKey true).move s.cursor.next).push .flowEntry

/-- The hyphen of an entry. -/
def entry (s : Scan) : Option Scan := do
  if 0 < s.flowLevel || !s.keyAllowed then none
  let s ← (s.openBlock s.cursor.col none .blockSequenceStart).dropKey
  return ((s.allowKey true).move s.cursor.next).push .blockEntry

/-- The question mark of a key. -/
def explicitKey (s : Scan) : Option Scan := do
  if s.flowLevel = 0 && !s.keyAllowed then none
  let s ← (s.openBlock s.cursor.col none .blockMappingStart).dropKey
  return ((s.allowKey (s.flowLevel = 0)).move s.cursor.next).push .key

/-- The colon of a value: it makes the key of this level one, or follows an explicit key. -/
def colon (s : Scan) : Option Scan := do
  let c := s.cursor
  let s ← match s.keys with
    | k :: outer =>
      if k.possible then
        let s := (s.insertAt k.number .key).openBlock k.col (some k.number) .blockMappingStart
        some ({ s with keys := { k with possible := false } :: outer }.allowKey false)
      else if s.flowLevel = 0 then
        if s.keyAllowed then
          some ((s.openBlock c.col none .blockMappingStart).allowKey true)
        else none
      else some (s.allowKey false)
    | [] => none
  return (s.move c.next).push .value

/-- An anchor or alias. -/
def anchorOrAlias (s : Scan) (make : String → Token) : Option Scan := do
  let s ← s.noteKey
  let (name, c) := s.cursor.next.span isWord
  let ends := isGap c.char || c.char ∈ ['?', ':', ',', ']', '\x7d', '%', '@', '\x60']
  if name.isEmpty || !ends then none
  return ((s.allowKey false).move c).push (make (String.ofList name))

/-- A tag. -/
def tagged (s : Scan) : Option Scan := do
  let s ← s.noteKey
  let (handle, suffix, c) ← readTag s.cursor
  if !isGap c.char then none
  return ((s.allowKey false).move c).push (.tag handle suffix)

/-- A block scalar. -/
def blockScalar (s : Scan) (literal : Bool) : Option Scan := do
  let s ← s.noteKey
  let (text, c) ← readBlock literal s.indent s.cursor.next
  return ((s.allowKey true).move c).push (.scalar false (String.ofList text))

/-- A quoted scalar. -/
def quotedScalar (s : Scan) (single : Bool) : Option Scan := do
  let s ← s.noteKey
  let (text, c) ← readQuoted single s.cursor.fuel [] s.cursor.next
  let s := { s with adjacentAt := c.index }
  return ((s.allowKey false).move c).push (.scalar false (String.ofList text))

/-- A plain scalar. -/
def plainScalar (s : Scan) : Option Scan := do
  let s ← s.noteKey
  let (text, afterBreak, c) ←
    readPlain (0 < s.flowLevel) (s.indent + 1) s.cursor.fuel [] [] s.cursor
  return ((s.allowKey afterBreak).move c).push (.scalar true (String.ofList text))

/-- The token at the cursor, which is not at the end. -/
def next (s : Scan) : Option Scan :=
  let c := s.cursor
  let ch := c.char
  let after := c.peek 1
  let inFlow := decide (0 < s.flowLevel)
  if c.col == 0 && ch == '%' then s.readDirective
  else if c.atMark '-' then s.border .documentStart
  else if c.atMark '.' then s.border .documentEnd
  else if ch == '[' then s.openFlow .flowSequenceStart
  else if ch == '\x7b' then s.openFlow .flowMappingStart
  else if ch == ']' then s.closeFlow .flowSequenceEnd
  else if ch == '\x7d' then s.closeFlow .flowMappingEnd
  else if ch == ',' then s.flowComma
  else if ch == '-' && isGap after then s.entry
  else if ch == '?' && isGap after then s.explicitKey
  else if ch == ':' && (isGap after || (inFlow && (isFlow after || c.index == s.adjacentAt))) then
    s.colon
  else if ch == '*' then s.anchorOrAlias .alias
  else if ch == '&' then s.anchorOrAlias .anchor
  else if ch == '!' then s.tagged
  else if ch == '|' && !inFlow then s.blockScalar true
  else if ch == '>' && !inFlow then s.blockScalar false
  else if ch == '\'' then s.quotedScalar true
  else if ch == '"' then s.quotedScalar false
  else if ch == '%' || ch == '@' || ch == '\x60' then none
  else s.plainScalar

/-- The end of the text closes everything. -/
def finish (s : Scan) : Option Scan := (s.closeBlocks (-1)).dropKey

/-- All tokens up to the end of the text. -/
def run : Nat → Scan → Option Scan
  | 0, _ => none
  | steps + 1, s => do
    let s ← (skipToToken s.cursor.fuel s).dropStaleKeys
    let s := s.closeBlocks s.cursor.col
    if isEnd s.cursor.char then s.finish
    else run steps (← s.next)

end Scan

/-- The tokens of a text. -/
def Token.scan (text : String) : Option (List Token) :=
  let cursor : Cursor := { rest := text.toList }
  ((Scan.run (cursor.fuel + 1) { cursor }).map fun s => s.tokens.toList)

end ViewDesign.Yaml
