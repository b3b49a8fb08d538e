import ViewDesign.Script.Expr
import ViewDesign.Script.Lexing

/-!
# From tokens to statements

A reader takes the tokens that are left and gives back what it read and the tokens after it; `none`
means that the text is malformed.  Operators of two values are read by climbing: `binary` takes the
operators that bind at least as tightly as a given level, and the right side of each starts one
level higher.

* `expression`, `assignment`, `conditional`, `binary`, `unary`   from the loosest to the tightest;
* `suffixed`, `primary`                                          members, calls and literals;
* `statement`, `body`, `program`                                 statements;
* `Stmt.parse?`                                                  a whole text.

The readers take the number of steps they may still nest.  Between two tokens no reader nests more
than sixteen steps, so sixteen for each token are enough.
-/

namespace ViewDesign.Script

namespace Parser

/-! ## Words and marks -/

/-- The words that are no names. -/
def reserved : List String :=
  ["break", "case", "catch", "class", "const", "continue", "debugger", "default", "delete", "do",
    "else", "enum", "export", "extends", "false", "finally", "for", "function", "if", "import",
    "in", "instanceof", "new", "null", "return", "super", "switch", "this", "throw", "true", "try",
    "typeof", "var", "void", "while", "with"]

/-- A word as a name. -/
def name? (w : String) : Option String := if w ∈ reserved then none else some w

/-- A word as a member of the same name.  What an object inherits from is not given in this way. -/
def shorthand? (w : String) : Option String := if w = ancestorName then none else name? w

/-- Goes on only if something holds of what was read. -/
def require (b : Bool) : Option Unit := if b then some () else none

/-- Whether at most one of the members of an object gives what it inherits from. -/
def hasSoleAncestor (entries : List (String × Expr)) : Bool :=
  (entries.filter fun e => e.1 = ancestorName).length ≤ 1

/-- A word as an expression: one of the three literals, or a name. -/
def ofWord? (w : String) : Option Expr :=
  if w = "true" then some (.bool true)
  else if w = "false" then some (.bool false)
  else if w = "null" then some .null
  else (name? w).map .name

/-- The tokens after a mark that must stand first. -/
def expect? (m : Mark) : List Lexeme → Option (List Lexeme)
  | ⟨.mark m', _⟩ :: rest => if m = m' then some rest else none
  | _ => none

/-- How tightly an operator of two values binds, and the expression it makes. -/
def binary? : Mark → Option (Nat × (Expr → Expr → Expr))
  | .or => some (1, .or)
  | .and => some (2, .and)
  | .equal => some (3, .binary .equal)
  | .notEqual => some (3, .binary .notEqual)
  | .same => some (3, .binary .same)
  | .notSame => some (3, .binary .notSame)
  | .less => some (4, .binary .less)
  | .lessEqual => some (4, .binary .lessEqual)
  | .greater => some (4, .binary .greater)
  | .greaterEqual => some (4, .binary .greaterEqual)
  | .plus => some (5, .binary .add)
  | .minus => some (5, .binary .subtract)
  | .star => some (6, .binary .multiply)
  | .slash => some (6, .binary .divide)
  | .percent => some (6, .binary .remainder)
  | _ => none

/-- The expression that an assignment mark makes of its two sides. -/
def assignment? : Mark → Option (Target → Expr → Expr)
  | .assign => some .assign
  | .addAssign => some fun t => .update t .add
  | .subAssign => some fun t => .update t .subtract
  | .mulAssign => some fun t => .update t .multiply
  | .divAssign => some fun t => .update t .divide
  | .modAssign => some fun t => .update t .remainder
  | _ => none

/-- Parameters up to the closing parenthesis. -/
def parameters : List Lexeme → Option (List String × List Lexeme)
  | ⟨.mark .closeParen, _⟩ :: rest => some ([], rest)
  | ⟨.word w, _⟩ :: ⟨.mark .closeParen, _⟩ :: rest => do return ([← name? w], rest)
  | ⟨.word w, _⟩ :: ⟨.mark .comma, _⟩ :: rest => do
    let x ← name? w
    let (xs, rest) ← parameters rest
    return (x :: xs, rest)
  | _ => none

/-- The end of a statement: a semicolon, or a place where one may be left out. -/
def ending? : List Lexeme → Option (List Lexeme)
  | [] => some []
  | t :: rest =>
    match t.token with
    | .mark .semicolon => some rest
    | .mark .closeBrace => some (t :: rest)
    | _ => if t.newLine then some (t :: rest) else none

/-! ## Readers -/

mutual

/-- Expressions divided by commas. -/
def expression : Nat → List Lexeme → Option (Expr × List Lexeme)
  | 0, _ => none
  | n + 1, ts => do
    let (e, ts) ← assignment n ts
    moreExpressions n e ts

/-- Expressions after a first one. -/
def moreExpressions : Nat → Expr → List Lexeme → Option (Expr × List Lexeme)
  | 0, _, _ => none
  | n + 1, e, ts =>
    match ts with
    | ⟨.mark .comma, _⟩ :: ts => do
      let (next, ts) ← assignment n ts
      moreExpressions n (.sequence e next) ts
    | ts => some (e, ts)

/-- An assignment, or anything that binds more tightly. -/
def assignment : Nat → List Lexeme → Option (Expr × List Lexeme)
  | 0, _ => none
  | n + 1, ts => do
    let (e, ts) ← conditional n ts
    match ts with
    | ⟨.mark m, newLine⟩ :: rest =>
      match assignment? m with
      | some make => do
        let target ← e.target?
        let (value, rest) ← assignment n rest
        return (make target value, rest)
      | none => some (e, ⟨.mark m, newLine⟩ :: rest)
    | ts => some (e, ts)

/-- A choice by a test, or anything that binds more tightly. -/
def conditional : Nat → List Lexeme → Option (Expr × List Lexeme)
  | 0, _ => none
  | n + 1, ts => do
    let (test, ts) ← binary n 0 ts
    match ts with
    | ⟨.mark .question, _⟩ :: ts => do
      let (yes, ts) ← assignment n ts
      let ts ← expect? .colon ts
      let (no, ts) ← assignment n ts
      return (.choice test yes no, ts)
    | ts => some (test, ts)

/-- Operators of two values that bind at least as tightly as a level. -/
def binary : Nat → Nat → List Lexeme → Option (Expr × List Lexeme)
  | 0, _, _ => none
  | n + 1, level, ts => do
    let (left, ts) ← unary n ts
    moreBinary n level left ts

/-- The operators after a left side. -/
def moreBinary : Nat → Nat → Expr → List Lexeme → Option (Expr × List Lexeme)
  | 0, _, _, _ => none
  | n + 1, level, left, ts =>
    match ts with
    | ⟨.mark m, newLine⟩ :: rest =>
      match binary? m with
      | some (strength, make) =>
        if level ≤ strength then do
          let (right, rest) ← binary n (strength + 1) rest
          moreBinary n level (make left right) rest
        else some (left, ⟨.mark m, newLine⟩ :: rest)
      | none => some (left, ⟨.mark m, newLine⟩ :: rest)
    | ts => some (left, ts)

/-- Operators in front of a value. -/
def unary : Nat → List Lexeme → Option (Expr × List Lexeme)
  | 0, _ => none
  | n + 1, ts =>
    match ts with
    | ⟨.mark .bang, _⟩ :: ts => do
      let (e, ts) ← unary n ts
      return (.unary .not e, ts)
    | ⟨.mark .minus, _⟩ :: ts => do
      let (e, ts) ← unary n ts
      return (.unary .negate e, ts)
    | ⟨.mark .plus, _⟩ :: ts => do
      let (e, ts) ← unary n ts
      return (.unary .number e, ts)
    | ⟨.word "typeof", _⟩ :: ts => do
      let (e, ts) ← unary n ts
      return (.typeOf e, ts)
    | ⟨.mark .increment, _⟩ :: ts => do
      let (e, ts) ← unary n ts
      return (.count (← e.target?) true true, ts)
    | ⟨.mark .decrement, _⟩ :: ts => do
      let (e, ts) ← unary n ts
      return (.count (← e.target?) false true, ts)
    | ts => counted n ts

/-- A value with a counting mark behind it, on the same line. -/
def counted : Nat → List Lexeme → Option (Expr × List Lexeme)
  | 0, _ => none
  | n + 1, ts => do
    let (e, ts) ← suffixed n ts
    match ts with
    | ⟨.mark .increment, false⟩ :: ts => do return (.count (← e.target?) true false, ts)
    | ⟨.mark .decrement, false⟩ :: ts => do return (.count (← e.target?) false false, ts)
    | ts => some (e, ts)

/-- A value with members and calls behind it. -/
def suffixed : Nat → List Lexeme → Option (Expr × List Lexeme)
  | 0, _ => none
  | n + 1, ts => do
    let (e, ts) ← primary n ts
    suffixes n e ts

/-- Members and calls behind a value. -/
def suffixes : Nat → Expr → List Lexeme → Option (Expr × List Lexeme)
  | 0, _, _ => none
  | n + 1, e, ts =>
    match ts with
    | ⟨.mark .dot, _⟩ :: ⟨.word w, _⟩ :: ts => suffixes n (.member e (.text w)) ts
    | ⟨.mark .openBracket, _⟩ :: ts => do
      let (key, ts) ← expression n ts
      let ts ← expect? .closeBracket ts
      suffixes n (.member e key) ts
    | ⟨.mark .openParen, _⟩ :: ts => do
      let (args, ts) ← arguments n ts
      suffixes n (.call e args) ts
    | ts => some (e, ts)

/-- A literal, a name, or an expression in parentheses. -/
def primary : Nat → List Lexeme → Option (Expr × List Lexeme)
  | 0, _ => none
  | n + 1, ts =>
    match ts with
    | ⟨.number x, _⟩ :: ts => some (.number x, ts)
    | ⟨.text s, _⟩ :: ts => some (.text s, ts)
    | ⟨.word "function", _⟩ :: ⟨.word w, _⟩ :: ts => do
      let name ← name? w
      let (parameters, body, ts) ← function n ts
      return (.function (some name) parameters body, ts)
    | ⟨.word "function", _⟩ :: ts => do
      let (parameters, body, ts) ← function n ts
      return (.function none parameters body, ts)
    | ⟨.word w, _⟩ :: ts => do return (← ofWord? w, ts)
    | ⟨.mark .openParen, _⟩ :: ts => do
      let (e, ts) ← expression n ts
      return (e, ← expect? .closeParen ts)
    | ⟨.mark .openBracket, _⟩ :: ts => do
      let (items, ts) ← elements n ts
      return (.array items, ts)
    | ⟨.mark .openBrace, _⟩ :: ts => do
      let (entries, ts) ← members n ts
      require (hasSoleAncestor entries)
      return (.object entries, ts)
    | _ => none

/-- Arguments up to the closing parenthesis; a comma may stand after the last one. -/
def arguments : Nat → List Lexeme → Option (List Expr × List Lexeme)
  | 0, _ => none
  | n + 1, ts =>
    match ts with
    | ⟨.mark .closeParen, _⟩ :: ts => some ([], ts)
    | ts => do
      let (e, ts) ← assignment n ts
      match ts with
      | ⟨.mark .closeParen, _⟩ :: ts => some ([e], ts)
      | ⟨.mark .comma, _⟩ :: ts => do
        let (rest, ts) ← arguments n ts
        return (e :: rest, ts)
      | _ => none

/-- Elements up to the closing bracket; one that is left out is absent. -/
def elements : Nat → List Lexeme → Option (List Expr × List Lexeme)
  | 0, _ => none
  | n + 1, ts =>
    match ts with
    | ⟨.mark .closeBracket, _⟩ :: ts => some ([], ts)
    | ⟨.mark .comma, _⟩ :: ts => do
      let (rest, ts) ← elements n ts
      return (.absent :: rest, ts)
    | ts => do
      let (e, ts) ← assignment n ts
      match ts with
      | ⟨.mark .closeBracket, _⟩ :: ts => some ([e], ts)
      | ⟨.mark .comma, _⟩ :: ts => do
        let (rest, ts) ← elements n ts
        return (e :: rest, ts)
      | _ => none

/-- Members up to the closing brace. -/
def members : Nat → List Lexeme → Option (List (String × Expr) × List Lexeme)
  | 0, _ => none
  | n + 1, ts =>
    match ts with
    | ⟨.mark .closeBrace, _⟩ :: ts => some ([], ts)
    | ⟨.word w, _⟩ :: ⟨.mark .colon, _⟩ :: ts => memberValue n w ts
    | ⟨.text s, _⟩ :: ⟨.mark .colon, _⟩ :: ts => memberValue n s ts
    | ⟨.number x, _⟩ :: ⟨.mark .colon, _⟩ :: ts => memberValue n x.text ts
    | ⟨.word w, _⟩ :: ts => do
      let x ← shorthand? w
      moreMembers n (x, .name x) ts
    | _ => none

/-- The value of a member and the members after it. -/
def memberValue : Nat → String → List Lexeme → Option (List (String × Expr) × List Lexeme)
  | 0, _, _ => none
  | n + 1, name, ts => do
    let (e, ts) ← assignment n ts
    moreMembers n (name, e) ts

/-- A member and what comes after it. -/
def moreMembers : Nat → String × Expr → List Lexeme → Option (List (String × Expr) × List Lexeme)
  | 0, _, _ => none
  | n + 1, entry, ts =>
    match ts with
    | ⟨.mark .closeBrace, _⟩ :: ts => some ([entry], ts)
    | ⟨.mark .comma, _⟩ :: ts => do
      let (rest, ts) ← members n ts
      return (entry :: rest, ts)
    | _ => none

/-- The parameters and the body of a function. -/
def function : Nat → List Lexeme → Option (List String × List Stmt × List Lexeme)
  | 0, _ => none
  | n + 1, ts => do
    let ts ← expect? .openParen ts
    let (parameters, ts) ← parameters ts
    let ts ← expect? .openBrace ts
    let (body, ts) ← body n ts
    return (parameters, body, ts)

/-- Statements up to the closing brace. -/
def body : Nat → List Lexeme → Option (List Stmt × List Lexeme)
  | 0, _ => none
  | n + 1, ts =>
    match ts with
    | ⟨.mark .closeBrace, _⟩ :: ts => some ([], ts)
    | ts => do
      let (s, ts) ← statement n ts
      let (rest, ts) ← body n ts
      return (s :: rest, ts)

/-- Declared variables divided by commas. -/
def declarations : Nat → List Lexeme → Option (List Stmt × List Lexeme)
  | 0, _ => none
  | n + 1, ts =>
    match ts with
    | ⟨.word w, _⟩ :: ⟨.mark .assign, _⟩ :: ts => do
      let x ← name? w
      let (e, ts) ← assignment n ts
      moreDeclarations n (.declareAs x e) ts
    | ⟨.word w, _⟩ :: ts => do
      let x ← name? w
      moreDeclarations n (.declare x) ts
    | _ => none

/-- A declared variable and those after it. -/
def moreDeclarations : Nat → Stmt → List Lexeme → Option (List Stmt × List Lexeme)
  | 0, _, _ => none
  | n + 1, first, ts =>
    match ts with
    | ⟨.mark .comma, _⟩ :: ts => do
      let (rest, ts) ← declarations n ts
      return (first :: rest, ts)
    | ts => some ([first], ts)

/-- What a loop does before its first round, up to the semicolon. -/
def loopStart : Nat → List Lexeme → Option (List Stmt × List Lexeme)
  | 0, _ => none
  | n + 1, ts =>
    match ts with
    | ⟨.mark .semicolon, _⟩ :: ts => some ([], ts)
    | ⟨.word "var", _⟩ :: ts => do
      let (declared, ts) ← declarations n ts
      return (declared, ← expect? .semicolon ts)
    | ts => do
      let (e, ts) ← expression n ts
      return ([.expression e], ← expect? .semicolon ts)

/-- An expression that may be left out before a mark. -/
def optional : Nat → Mark → Expr → List Lexeme → Option (Expr × List Lexeme)
  | 0, _, _, _ => none
  | n + 1, m, default, ts =>
    match expect? m ts with
    | some rest => some (default, rest)
    | none => do
      let (e, ts) ← expression n ts
      return (e, ← expect? m ts)

/-- A statement. -/
def statement : Nat → List Lexeme → Option (Stmt × List Lexeme)
  | 0, _ => none
  | n + 1, ts =>
    match ts with
    | ⟨.mark .openBrace, _⟩ :: ts => do
      let (statements, ts) ← body n ts
      require (statements.all Stmt.isInner)
      return (.block statements, ts)
    | ⟨.mark .semicolon, _⟩ :: ts => some (.block [], ts)
    | ⟨.word "var", _⟩ :: ts => do
      let (declared, ts) ← declarations n ts
      return (.block declared, ← ending? ts)
    | ⟨.word "function", _⟩ :: ⟨.word w, _⟩ :: ts => do
      let name ← name? w
      let (parameters, body, ts) ← function n ts
      return (.define name parameters body, ts)
    | ⟨.word "function", _⟩ :: _ => none
    | ⟨.word "if", _⟩ :: ts => do
      let ts ← expect? .openParen ts
      let (test, ts) ← expression n ts
      let ts ← expect? .closeParen ts
      let (yes, ts) ← statement n ts
      require yes.isInner
      match ts with
      | ⟨.word "else", _⟩ :: ts => do
        let (no, ts) ← statement n ts
        require no.isInner
        return (.branch test yes no, ts)
      | ts => some (.when test yes, ts)
    | ⟨.word "for", _⟩ :: ts => do
      let ts ← expect? .openParen ts
      let (start, ts) ← loopStart n ts
      let (test, ts) ← optional n .semicolon (.bool true) ts
      let (step, ts) ← optional n .closeParen .absent ts
      let (repeated, ts) ← statement n ts
      require repeated.isInner
      return (.block (start ++ [.loop test step repeated]), ts)
    | ⟨.word "return", _⟩ :: ts =>
      match ending? ts with
      | some rest => some (.result .absent, rest)
      | none => do
        let (e, ts) ← expression n ts
        return (.result e, ← ending? ts)
    | ts => do
      let (e, ts) ← expression n ts
      return (.expression e, ← ending? ts)

end

/-- Statements up to the end.  They are in no function, so none returns. -/
def program : Nat → List Lexeme → Option (List Stmt)
  | 0, _ => none
  | n + 1, ts =>
    match ts with
    | [] => some []
    | ts => do
      let (s, ts) ← statement n ts
      require !s.returns
      let rest ← program n ts
      return s :: rest

end Parser

/-- The statements of a text; `none` when it is malformed. -/
def Stmt.parse? (cs : List Char) : Option (List Stmt) := do
  let ts ← Lexeme.scan? cs
  Parser.program (16 * (ts.length + 1)) ts

end ViewDesign.Script
