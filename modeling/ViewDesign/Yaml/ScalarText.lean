import ViewDesign.Decimal.Reading
import ViewDesign.Yaml.Cursor

/-!
# The texts of YAML scalars

The four ways to write a scalar: plain, between single or double quotes, and as a block.  Each
reader gives the text and the cursor after it, and fails on a text that breaks off.

Words of a plain or quoted scalar are divided by gaps.  A gap within a line is kept; a gap with one
line break becomes a blank; of more line breaks the first is dropped.
-/

namespace ViewDesign.Yaml

/-! ## Gaps -/

/-- The number of line breaks in a run of blanks and breaks. -/
def countBreaks : List Char → Nat
  | [] => 0
  | '\r' :: '\n' :: rest => countBreaks rest + 1
  | c :: rest => if isBreak c then countBreaks rest + 1 else countBreaks rest

/-- What a gap contributes to the text. After an escaped break every further break is kept. -/
def foldGap (afterEscape : Bool) (gap : List Char) : List Char :=
  if afterEscape then List.replicate (countBreaks gap) '\n'
  else match countBreaks gap with
    | 0 => gap
    | 1 => [' ']
    | n + 1 => List.replicate n '\n'

/-- A gap and the cursor after it. -/
def readGap (c : Cursor) : List Char × Cursor := c.span fun d => isBlank d || isBreak d

/-! ## Plain scalars -/

/-- The word of a plain scalar at the cursor, in a flow collection or outside. -/
def plainWord (inFlow : Bool) : List Char → List Char
  | [] => []
  | c :: rest =>
    let after := rest.headD '\x00'
    if isGap c then []
    else if c == ':' && (isGap after || (inFlow && isFlow after)) then []
    else if inFlow && isFlow c then []
    else c :: plainWord inFlow rest

/-- Whether a gap has a tab in the indentation of a line. -/
def tabInIndent (indent : Int) : Nat → Bool → Cursor → Bool
  | 0, _, _ => false
  | steps + 1, afterBreak, c =>
    if isBlank c.char then
      (afterBreak && c.char == '\t' && decide ((c.col : Int) < indent)) ||
        tabInIndent indent steps afterBreak c.next
    else if isBreak c.char then tabInIndent indent steps true c.skipBreak
    else false

/-- Reads the words of a plain scalar from a gap on. Also tells whether it ended after a line
break. -/
def readPlain (inFlow : Bool) (indent : Int) :
    Nat → List Char → List Char → Cursor → Option (List Char × Bool × Cursor)
  | 0, text, _, c => some (text, false, c)
  | steps + 1, text, gap, c =>
    let broken := countBreaks gap != 0
    if c.atBorder || c.char == '#' then some (text, broken, c)
    else
      let word := plainWord inFlow c.rest
      if word.isEmpty then some (text, broken, c)
      else
        let text := text ++ foldGap false gap ++ word
        let c := c.skip word.length
        let (gap, after) := readGap c
        if gap.isEmpty then some (text, false, c)
        else if tabInIndent indent c.fuel false c then none
        else if !inFlow && decide ((after.col : Int) < indent) then
          some (text, countBreaks gap != 0, after)
        else readPlain inFlow indent steps text gap after

/-! ## Quoted scalars -/

/-- The character of an escape letter between double quotes. -/
def escapedChar? (c : Char) : Option Char :=
  [('0', '\x00'), ('a', '\x07'), ('b', '\x08'), ('t', '\t'), ('\t', '\t'), ('n', '\n'),
    ('v', '\x0b'), ('f', '\x0c'), ('r', '\r'), ('e', '\x1b'), (' ', ' '), ('"', '"'),
    ('\'', '\''), ('\\', '\\'), ('N', '\u0085'), ('_', '\u00a0'), ('L', '\u2028'),
    ('P', '\u2029')].lookup c

/-- The number of hexadecimal digits after an escape letter. -/
def escapeLength? (c : Char) : Option Nat := [('x', 2), ('u', 4), ('U', 8)].lookup c

/-- The character of a code point. -/
def charOf? (n : Nat) : Option Char := if n.isValidChar then some (Char.ofNat n) else none

/-- How the word of a quoted scalar ends. -/
inductive WordEnd where
  /-- before a gap or the closing quote -/
  | plain
  /-- after a backslash and a line break -/
  | escapedBreak
deriving DecidableEq

/-- Reads the characters of a quoted scalar up to a gap or the closing quote. -/
def readQuotedWord (single : Bool) :
    Nat → List Char → Cursor → Option (List Char × WordEnd × Cursor)
  | 0, _, _ => none
  | steps + 1, text, c =>
    let ch := c.char
    let after := c.peek 1
    if isGap ch then some (text, .plain, c)
    else if single then
      if ch == '\'' then
        if after == '\'' then readQuotedWord single steps (text ++ ['\'']) (c.skip 2)
        else some (text, .plain, c)
      else readQuotedWord single steps (text ++ [ch]) c.next
    else if ch == '"' then some (text, .plain, c)
    else if ch == '\\' then
      if isBreak after then some (text, .escapedBreak, c.next.skipBreak)
      else match escapeLength? after with
        | some n => do
          let digits := (c.skip 2).rest.take n
          if digits.length ≠ n then none
          let value ← digits.foldlM (fun v d => (Decimal.digitValue? 16 d).map (16 * v + ·)) 0
          let d ← charOf? value
          readQuotedWord single steps (text ++ [d]) (c.skip (2 + n))
        | none => do
          let d ← escapedChar? after
          readQuotedWord single steps (text ++ [d]) (c.skip 2)
    else readQuotedWord single steps (text ++ [ch]) c.next

/-- Reads words and gaps of a quoted scalar up to and past the closing quote. -/
def readQuoted (single : Bool) : Nat → List Char → Cursor → Option (List Char × Cursor)
  | 0, _, _ => none
  | steps + 1, text, c => do
    if c.atBorder || isEnd c.char then none
    let (text, ending, c) ← readQuotedWord single c.fuel text c
    if c.char == (if single then '\'' else '"') then some (text, c.next)
    else
      let (gap, c) := readGap c
      readQuoted single steps (text ++ foldGap (ending == .escapedBreak) gap) c

/-! ## Block scalars -/

/-- What becomes of the line breaks at the end of a block. -/
inductive Chomping where
  | strip
  | clip
  | keep
deriving DecidableEq

/-- A chomping indicator, if there is one. -/
def readChomping (c : Cursor) : Option (Chomping × Cursor) :=
  if c.char == '+' then some (.keep, c.next)
  else if c.char == '-' then some (.strip, c.next)
  else none

/-- An indentation indicator: a digit that is not zero. `none` is a fault. -/
def readIncrement (c : Cursor) : Option (Nat × Cursor) :=
  if c.char.isDigit then
    if c.char == '0' then none else some (c.char.toNat - 48, c.next)
  else some (0, c)

/-- The header of a block: chomping and indentation in either order. -/
def readHeader (c : Cursor) : Option (Chomping × Nat × Cursor) :=
  match readChomping c with
  | some (chomping, c) => (readIncrement c).map fun (n, c) => (chomping, n, c)
  | none => do
    let (n, c) ← readIncrement c
    if n = 0 then some (.clip, 0, c)
    else match readChomping c with
      | some (chomping, c) => some (chomping, n, c)
      | none => some (.clip, n, c)

/-- Passes over the indentation and empty lines before a line of a block. Gives the number of
breaks and the widest indentation; an indentation of zero is still unknown. -/
def readIndent (indent : Nat) : Nat → Nat → Nat → Cursor → Option (Nat × Nat × Cursor)
  | 0, breaks, widest, c => some (breaks, widest, c)
  | steps + 1, breaks, widest, c =>
    let inIndent (col : Nat) : Bool := indent == 0 || decide (col < indent)
    let blanks := c.rest.takeWhile (· == ' ')
    let width := if indent == 0 then blanks.length else min blanks.length (indent - c.col)
    let c := c.skip width
    let widest := max widest c.col
    if inIndent c.col && c.char == '\t' then none
    else if isBreak c.char then readIndent indent steps (breaks + 1) widest c.skipBreak
    else some (breaks, widest, c)

/-- Reads the lines of a block.  `held` says whether a line break waits to be written, `breaks` how
many empty lines came after it, and `wasBlank` whether the line before began with a blank. -/
def readLines (literal : Bool) (indent : Nat) :
    Nat → List Char → Bool → Nat → Bool → Cursor → Option (List Char × Bool × Nat × Cursor)
  | 0, text, held, breaks, _, c => some (text, held, breaks, c)
  | steps + 1, text, held, breaks, wasBlank, c =>
    if c.col ≠ indent || isEnd c.char then some (text, held, breaks, c)
    else do
      let startsBlank := isBlank c.char
      let joint :=
        if !literal && held && !wasBlank && !startsBlank then
          if breaks = 0 then [' '] else []
        else if held then ['\n'] else []
      let (line, c) := c.span fun d => !isBreakOrEnd d
      let text := text ++ joint ++ List.replicate breaks '\n' ++ line
      if isEnd c.char then some (text, false, 0, c)
      else do
        let (breaks, _, c) ← readIndent indent c.fuel 0 0 c.skipBreak
        readLines literal indent steps text true breaks startsBlank c

/-- Reads a block after its indicator; `parent` is the indentation around it. -/
def readBlock (literal : Bool) (parent : Int) (c : Cursor) : Option (List Char × Cursor) := do
  let (chomping, increment, c) ← readHeader c
  let c := c.skipComment
  if !isBreakOrEnd c.char then none
  let c := c.skipBreak
  let given : Nat :=
    if increment = 0 then 0
    else if 0 ≤ parent then parent.toNat + increment else increment
  let (breaks, widest, c) ← readIndent given c.fuel 0 0 c
  let indent := if given = 0 then max widest (max (parent + 1).toNat 1) else given
  let (text, held, breaks, c) ← readLines literal indent c.fuel [] false breaks false c
  let text := if chomping ≠ .strip && held then text ++ ['\n'] else text
  let text := if chomping = .keep then text ++ List.replicate breaks '\n' else text
  return (text, c)

end ViewDesign.Yaml
