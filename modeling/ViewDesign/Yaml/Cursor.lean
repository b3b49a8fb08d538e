/-!
# A place in a YAML text

A cursor is the text that is still to come, with the line and column it starts at.  Past the end
it shows the null character, which therefore ends a text wherever it stands.
-/

namespace ViewDesign.Yaml

/-! ## Classes of characters -/

/-- The end of the text. -/
def isEnd (c : Char) : Bool := c == '\x00'

/-- A line break. -/
def isBreak (c : Char) : Bool := c == '\n' || c == '\r'

/-- A blank inside a line. -/
def isBlank (c : Char) : Bool := c == ' ' || c == '\t'

/-- A line break or the end. -/
def isBreakOrEnd (c : Char) : Bool := isBreak c || isEnd c

/-- A blank, a line break or the end. -/
def isGap (c : Char) : Bool := isBlank c || isBreakOrEnd c

/-- The indicators of flow collections. -/
def isFlow (c : Char) : Bool :=
  c == ',' || c == '[' || c == ']' || c == '\x7b' || c == '\x7d'

/-- The characters of anchors and tag handles. -/
def isWord (c : Char) : Bool := c.isAlphanum || c == '_' || c == '-'

/-! ## Cursors -/

/-- A place in a text. -/
structure Cursor where
  rest : List Char
  index : Nat := 0
  line : Nat := 0
  col : Nat := 0
deriving Repr, Inhabited

namespace Cursor

/-- The character a few places ahead. -/
def peek (c : Cursor) (ahead : Nat) : Char := c.rest.getD ahead '\x00'

/-- The character at the cursor. -/
def char (c : Cursor) : Char := c.peek 0

/-- One character further; only a line feed starts a new line. -/
def next (c : Cursor) : Cursor :=
  match c.rest with
  | [] => { c with index := c.index + 1, col := c.col + 1 }
  | '\n' :: rest => ⟨rest, c.index + 1, c.line + 1, 0⟩
  | _ :: rest => ⟨rest, c.index + 1, c.line, c.col + 1⟩

/-- Several characters further. -/
def skip (c : Cursor) : Nat → Cursor
  | 0 => c
  | n + 1 => c.next.skip n

/-- Past one line break, which may have two characters. -/
def skipBreak (c : Cursor) : Cursor :=
  if c.char == '\r' && c.peek 1 == '\n' then c.skip 2
  else if isBreak c.char then c.next
  else c

/-- The longest run of characters of a class, and the cursor after it. -/
def span (c : Cursor) (test : Char → Bool) : List Char × Cursor :=
  let run := c.rest.takeWhile test
  (run, c.skip run.length)

/-- To the end of the line. -/
def skipLine (c : Cursor) : Cursor := (c.span fun d => !isBreakOrEnd d).2

/-- Past blanks and a comment. -/
def skipComment (c : Cursor) : Cursor :=
  let c := (c.span isBlank).2
  if c.char == '#' then c.skipLine else c

/-- Whether three characters at the start of a line mark the border of a document. -/
def atMark (c : Cursor) (mark : Char) : Bool :=
  c.col == 0 && c.peek 0 == mark && c.peek 1 == mark && c.peek 2 == mark && isGap (c.peek 3)

/-- Whether a document begins or ends here. -/
def atBorder (c : Cursor) : Bool := c.atMark '-' || c.atMark '.'

/-- A bound on the number of steps through the rest of the text. -/
def fuel (c : Cursor) : Nat := c.rest.length + 1

end Cursor

end ViewDesign.Yaml
