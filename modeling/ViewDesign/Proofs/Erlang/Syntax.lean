import ViewDesign.Decimal.Reading

/-!
# Texts of Erlang expressions

A reader for the part of Erlang that has no operators: what it reads, Erlang reads the same way, and
where Erlang would go on with something outside this part it reads nothing.

* `Token`, `Mode`        tokens, and where a scanner stands in the middle of one;
* `Mode.run`             scans a text character by character;
* `scan?`                the tokens of a whole text;
* `Expr`                 expressions, with binaries as the bytes they denote;
* `Parser.expression`    an expression at the start of some tokens;
* `Expr.read?`           the expression of a text that ends with a full stop.

Words that begin with a small letter are atoms unless they are reserved; words that begin with a
capital letter or an underscore are variables.  Inside a string a backslash takes the next character
as it is or as one of the one-letter escapes; escapes by number are left out.
-/

namespace ViewDesign.Erlang

/-! ## Tokens -/

/-- The marks of the language without operators. -/
inductive Mark where
  | openParen | closeParen | openBrace | closeBrace | openBracket | closeBracket
  | openBinary | closeBinary | comma | semicolon | colon | arrow | equal | slash
deriving Repr, DecidableEq

/-- What a text is made of. -/
inductive Token where
  | variable (name : String)
  | atom (name : String)
  | reserved (word : String)
  | integer (n : Nat)
  /-- a string, its escapes resolved -/
  | text (chars : List Char)
  | mark (m : Mark)
  /-- the full stop, which is followed by a blank or by nothing -/
  | stop
deriving Repr, DecidableEq

/-- The words that are no atoms. -/
def reservedWords : List String :=
  ["after", "and", "andalso", "band", "begin", "bnot", "bor", "bsl", "bsr", "bxor", "case", "catch",
    "cond", "div", "else", "end", "fun", "if", "let", "maybe", "not", "of", "or", "orelse",
    "receive", "rem", "try", "when", "xor"]

/-- Whether a character is a letter, a digit, an underscore or an at sign. -/
def isWordPart (c : Char) : Bool := c.isAlphanum || c == '_' || c == '@'

/-- Whether a character divides tokens. -/
def isBlank (c : Char) : Bool := c == ' ' || c == '\n' || c == '\t' || c == '\r'

/-- The token of a word. -/
def Token.ofWord (chars : List Char) : Token :=
  let word := String.ofList chars
  match chars with
  | c :: _ =>
    if c.isUpper || c == '_' then .variable word
    else if word ∈ reservedWords then .reserved word
    else .atom word
  | [] => .atom word

/-! ## Scanning -/

/-- Where the scanner stands; characters are collected last to first. -/
inductive Mode where
  | ready
  | word (chars : List Char)
  | digits (chars : List Char)
  | text (chars : List Char)
  /-- after a backslash in a string -/
  | escape (chars : List Char)
  | less
  | greater
  | minus
  | equal
  | colon
  | slash
  | dot
  | comment
deriving Repr, DecidableEq

/-- The marks of a single character. -/
def Mark.ofChar? (c : Char) : Option Mark :=
  if c = '(' then some .openParen
  else if c = ')' then some .closeParen
  else if c = '\x7b' then some .openBrace
  else if c = '\x7d' then some .closeBrace
  else if c = '[' then some .openBracket
  else if c = ']' then some .closeBracket
  else if c = ',' then some .comma
  else if c = ';' then some .semicolon
  else none

/-- The marks of a single character that may also begin another token. -/
def Mode.ofChar? (c : Char) : Option Mode :=
  if c = '<' then some .less
  else if c = '>' then some .greater
  else if c = '-' then some .minus
  else if c = '=' then some .equal
  else if c = ':' then some .colon
  else if c = '/' then some .slash
  else if c = '.' then some .dot
  else if c = '%' then some .comment
  else if c = '"' then some (.text [])
  else none

/-- The character that a letter after a backslash stands for; other characters stand for themselves.
Numbers, `x` and `^` begin longer escapes. -/
def unescape? (c : Char) : Option Char :=
  if c = 'n' then some '\n'
  else if c = 'r' then some '\r'
  else if c = 't' then some '\t'
  else if c = 'b' then some '\x08'
  else if c = 'f' then some '\x0c'
  else if c = 'v' then some '\x0b'
  else if c = 'e' then some '\x1b'
  else if c = 's' then some ' '
  else if c = 'd' then some '\x7f'
  else if c.isDigit ∨ c = 'x' ∨ c = '^' then none
  else some c

namespace Mode

/-- The first character of a token, or a blank. -/
def begin? (c : Char) : Option (List Token × Mode) :=
  if isBlank c then some ([], .ready)
  else if c.isAlpha || c == '_' then some ([], .word [c])
  else if c.isDigit then some ([], .digits [c])
  else
    match Mark.ofChar? c with
    | some m => some ([.mark m], .ready)
    | none => (ofChar? c).map fun mode => ([], mode)

/-- A token ends, and a character follows that is no part of it. -/
def after? (t : Token) (c : Char) : Option (List Token × Mode) :=
  (begin? c).map fun r => (t :: r.1, r.2)

/-- One character: the tokens that it ends, and where the scanner stands after it. -/
def step : Mode → Char → Option (List Token × Mode)
  | ready, c => begin? c
  | word chars, c =>
    if isWordPart c then some ([], word (c :: chars)) else after? (.ofWord chars.reverse) c
  | digits chars, c =>
    if c.isDigit then some ([], digits (c :: chars))
    else if isWordPart c || c == '#' || c == '.' then none
    else after? (.integer (Decimal.valueOf chars.reverse)) c
  | text chars, c =>
    if c = '"' then some ([.text chars.reverse], ready)
    else if c = '\\' then some ([], escape chars)
    else some ([], text (c :: chars))
  | escape chars, c => (unescape? c).map fun d => ([], text (d :: chars))
  | less, c => if c = '<' then some ([.mark .openBinary], ready) else none
  | greater, c => if c = '>' then some ([.mark .closeBinary], ready) else none
  | minus, c => if c = '>' then some ([.mark .arrow], ready) else none
  | equal, c =>
    if c = '=' ∨ c = '<' ∨ c = '/' ∨ c = ':' then none else after? (.mark .equal) c
  | colon, c => if c = ':' ∨ c = '=' then none else after? (.mark .colon) c
  | slash, c => if c = '=' then none else after? (.mark .slash) c
  | dot, c =>
    if isBlank c then some ([.stop], ready) else if c = '%' then some ([.stop], comment) else none
  | comment, c => if c = '\n' then some ([], ready) else some ([], comment)

/-- A whole text. -/
def run : Mode → List Char → Option (List Token × Mode)
  | m, [] => some ([], m)
  | m, c :: cs => do
    let (out, m) ← m.step c
    let (more, m) ← run m cs
    return (out ++ more, m)

/-- The token that the end of the text ends. -/
def finish? : Mode → Option (List Token)
  | ready => some []
  | word chars => some [.ofWord chars.reverse]
  | digits chars => some [.integer (Decimal.valueOf chars.reverse)]
  | dot => some [.stop]
  | comment => some []
  | _ => none

/-- a scan goes on where it stopped -/
theorem run_append (m : Mode) (as bs : List Char) : m.run (as ++ bs) = (do
    let (out, m) ← m.run as
    let (more, m) ← m.run bs
    return (out ++ more, m)) := by
  induction as generalizing m with
  | nil =>
    simp only [List.nil_append, run, Option.bind_eq_bind, Option.bind_some]
    cases m.run bs <;> rfl
  | cons c as ih =>
    simp only [List.cons_append, run, ih]
    cases m.step c with
    | none => rfl
    | some r =>
      obtain ⟨out, m'⟩ := r
      simp only [Option.bind_eq_bind, Option.bind_some]
      cases m'.run as with
      | none => rfl
      | some r =>
        obtain ⟨more, m''⟩ := r
        simp only [Option.bind_some, Option.pure_def]
        cases m''.run bs <;> simp

theorem run_then {m m' m'' : Mode} {as bs : List Char} {out more : List Token}
    (ha : m.run as = some (out, m')) (hb : m'.run bs = some (more, m'')) :
    m.run (as ++ bs) = some (out ++ more, m'') := by
  rw [run_append, ha]
  simp [hb]

theorem run_cons {m m' m'' : Mode} {c : Char} {cs : List Char} {out more : List Token}
    (hc : m.step c = some (out, m')) (hcs : m'.run cs = some (more, m'')) :
    m.run (c :: cs) = some (out ++ more, m'') := by
  simp [run, hc, hcs]

end Mode

/-- The tokens of a text. -/
def scan? (cs : List Char) : Option (List Token) := do
  let (out, m) ← Mode.run .ready cs
  return out ++ (← m.finish?)

/-! ## Expressions -/

/-- An expression or a pattern, which are written alike. -/
inductive Expr where
  | wildcard
  | variable (name : String)
  | atom (name : String)
  | integer (n : Nat)
  /-- a binary, by the bytes it denotes -/
  | binary (bytes : List UInt8)
  | list (items : List Expr)
  | tuple (items : List Expr)
  /-- a function of a library module -/
  | remote (library function : Expr)
  | call (function : Expr) (arguments : List Expr)
  | bind (pattern value : Expr)
  /-- clauses of one pattern and a body each -/
  | cases (subject : Expr) (clauses : List (Expr × List Expr))
  /-- clauses of patterns for the arguments and a body each -/
  | function (clauses : List (List Expr × List Expr))

/-- The bytes of a string segment of a binary: one for each character, or its UTF-8 encoding. -/
def segmentBytes (utf8 : Bool) (chars : List Char) : List UInt8 :=
  if utf8 then chars.flatMap String.utf8EncodeChar else chars.map fun c => UInt8.ofNat c.toNat

namespace Parser

/-- The string segments of a binary up to its end. -/
def segments : List Token → Option (List UInt8 × List Token)
  | .text cs :: .mark .closeBinary :: ts => some (segmentBytes false cs, ts)
  | .text cs :: .mark .slash :: .atom "utf8" :: .mark .closeBinary :: ts =>
    some (segmentBytes true cs, ts)
  | .text cs :: .mark .comma :: ts => do
    let (bytes, ts) ← segments ts
    return (segmentBytes false cs ++ bytes, ts)
  | .text cs :: .mark .slash :: .atom "utf8" :: .mark .comma :: ts => do
    let (bytes, ts) ← segments ts
    return (segmentBytes true cs ++ bytes, ts)
  | _ => none

/-- The tokens after a given one. -/
def expect? (t : Token) : List Token → Option (List Token)
  | t' :: ts => if t' = t then some ts else none
  | [] => none

mutual

/-- An expression: a pattern that is bound to one, or a call. -/
def expression : Nat → List Token → Option (Expr × List Token)
  | 0, _ => none
  | n + 1, ts => do
    let (e, ts) ← application n ts
    match ts with
    | .mark .equal :: ts => do
      let (v, ts) ← expression n ts
      return (.bind e v, ts)
    | ts => return (e, ts)

/-- A function of a module or a plain one, with or without arguments. -/
def application : Nat → List Token → Option (Expr × List Token)
  | 0, _ => none
  | n + 1, ts => do
    let (e, ts) ← qualified n ts
    match ts with
    | .mark .openParen :: ts => do
      let (args, ts) ← items n .closeParen ts
      return (.call e args, ts)
    | ts => return (e, ts)

/-- A name with or without its module. -/
def qualified : Nat → List Token → Option (Expr × List Token)
  | 0, _ => none
  | n + 1, ts => do
    let (e, ts) ← primary n ts
    match ts with
    | .mark .colon :: ts => do
      let (f, ts) ← primary n ts
      return (.remote e f, ts)
    | ts => return (e, ts)

/-- An expression that is closed on both sides. -/
def primary : Nat → List Token → Option (Expr × List Token)
  | 0, _ => none
  | _ + 1, .variable x :: ts => some (if x = "_" then .wildcard else .variable x, ts)
  | _ + 1, .atom a :: ts => some (.atom a, ts)
  | _ + 1, .integer i :: ts => some (.integer i, ts)
  | _ + 1, .mark .openBinary :: .mark .closeBinary :: ts => some (.binary [], ts)
  | _ + 1, .mark .openBinary :: ts => (segments ts).map fun r => (.binary r.1, r.2)
  | n + 1, .mark .openBracket :: ts => (items n .closeBracket ts).map fun r => (.list r.1, r.2)
  | n + 1, .mark .openBrace :: ts => (items n .closeBrace ts).map fun r => (.tuple r.1, r.2)
  | n + 1, .mark .openParen :: ts => do
    let (e, ts) ← expression n ts
    return (e, ← expect? (.mark .closeParen) ts)
  | n + 1, .reserved "case" :: ts => do
    let (e, ts) ← expression n ts
    let (cs, ts) ← clauses n (← expect? (.reserved "of") ts)
    return (.cases e cs, ← expect? (.reserved "end") ts)
  | n + 1, .reserved "fun" :: ts => do
    let (cs, ts) ← functionClauses n ts
    return (.function cs, ← expect? (.reserved "end") ts)
  | _ + 1, _ => none

/-- Expressions divided by commas up to a mark, or none. -/
def items : Nat → Mark → List Token → Option (List Expr × List Token)
  | 0, _, _ => none
  | n + 1, close, ts =>
    if ts.head? = some (.mark close) then some ([], ts.tail)
    else do
      let (e, ts) ← expression n ts
      moreItems n close e ts

/-- What follows an element: the mark, or a comma and the next one. -/
def moreItems : Nat → Mark → Expr → List Token → Option (List Expr × List Token)
  | 0, _, _, _ => none
  | n + 1, close, e, ts =>
    match ts with
    | .mark .comma :: ts => do
      let (e', ts) ← expression n ts
      let (es, ts) ← moreItems n close e' ts
      return (e :: es, ts)
    | ts => return ([e], ← expect? (.mark close) ts)

/-- A body: one or more expressions divided by commas. -/
def body : Nat → List Token → Option (List Expr × List Token)
  | 0, _ => none
  | n + 1, ts => do
    let (e, ts) ← expression n ts
    match ts with
    | .mark .comma :: ts => do
      let (es, ts) ← body n ts
      return (e :: es, ts)
    | ts => return ([e], ts)

/-- The clauses of a case, divided by semicolons. -/
def clauses : Nat → List Token → Option (List (Expr × List Expr) × List Token)
  | 0, _ => none
  | n + 1, ts => do
    let (p, ts) ← expression n ts
    let (b, ts) ← body n (← expect? (.mark .arrow) ts)
    match ts with
    | .mark .semicolon :: ts => do
      let (cs, ts) ← clauses n ts
      return ((p, b) :: cs, ts)
    | ts => return ([(p, b)], ts)

/-- The clauses of a function, divided by semicolons. -/
def functionClauses : Nat → List Token → Option (List (List Expr × List Expr) × List Token)
  | 0, _ => none
  | n + 1, ts => do
    let (ps, ts) ← items n .closeParen (← expect? (.mark .openParen) ts)
    let (b, ts) ← body n (← expect? (.mark .arrow) ts)
    match ts with
    | .mark .semicolon :: ts => do
      let (cs, ts) ← functionClauses n ts
      return ((ps, b) :: cs, ts)
    | ts => return ([(ps, b)], ts)

end

end Parser

/-- The expression that a text is, up to a full stop after which nothing follows.  No reader nests
more than eight steps between two tokens. -/
def Expr.read? (cs : List Char) : Option Expr := do
  let ts ← scan? cs
  match Parser.expression (8 * (ts.length + 1)) ts with
  | some (e, [.stop]) => some e
  | _ => none

theorem Expr.read?_of_tokens {cs : List Char} {ts : List Token} {e : Expr}
    (hscan : scan? cs = some ts)
    (hparse : Parser.expression (8 * (ts.length + 1)) ts = some (e, [.stop])) :
    Expr.read? cs = some e := by
  simp [Expr.read?, hscan, hparse]

end ViewDesign.Erlang
