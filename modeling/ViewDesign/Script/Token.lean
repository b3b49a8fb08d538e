import ViewDesign.Script.Number

/-!
# Tokens of a script

* `Mark`      punctuation and operators; `Mark.extend?` says which of them are longer than others;
* `Token`     a word, a literal or a mark;
* `Lexeme`    a token that knows whether a line was broken before it.
-/

namespace ViewDesign.Script

/-- A punctuation mark or an operator. -/
inductive Mark where
  | openParen | closeParen
  | openBracket | closeBracket
  | openBrace | closeBrace
  | comma | semicolon | colon | question | dot
  | assign | addAssign | subAssign | mulAssign | divAssign | modAssign
  | equal | notEqual | same | notSame
  | less | lessEqual | greater | greaterEqual
  | plus | minus | star | slash | percent
  | increment | decrement
  | bang | and | or
deriving Repr, DecidableEq, Inhabited

namespace Mark

/-- The mark of one character.  The point, the slash and the doubled marks need a second one. -/
def ofChar? (c : Char) : Option Mark :=
  match c with
  | '(' => some openParen
  | ')' => some closeParen
  | '[' => some openBracket
  | ']' => some closeBracket
  | '\x7b' => some openBrace
  | '\x7d' => some closeBrace
  | ',' => some comma
  | ';' => some semicolon
  | ':' => some colon
  | '?' => some question
  | '=' => some assign
  | '<' => some less
  | '>' => some greater
  | '+' => some plus
  | '-' => some minus
  | '*' => some star
  | '%' => some percent
  | '!' => some bang
  | _ => none

/-- The longer mark that a mark and one more character make. -/
def extend? (m : Mark) (c : Char) : Option Mark :=
  match m, c with
  | assign, '=' => some equal
  | equal, '=' => some same
  | bang, '=' => some notEqual
  | notEqual, '=' => some notSame
  | less, '=' => some lessEqual
  | greater, '=' => some greaterEqual
  | plus, '+' => some increment
  | plus, '=' => some addAssign
  | minus, '-' => some decrement
  | minus, '=' => some subAssign
  | star, '=' => some mulAssign
  | percent, '=' => some modAssign
  | _, _ => none

end Mark

/-- A token. -/
inductive Token where
  | word (w : String)
  | number (n : Number)
  | text (s : String)
  | mark (m : Mark)
deriving Inhabited

/-- A token in its place. -/
structure Lexeme where
  token : Token
  /-- a line was broken between the token before and this one -/
  newLine : Bool
deriving Inhabited

end ViewDesign.Script
