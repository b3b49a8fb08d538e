import ViewDesign.Proofs.Json.Literal
import ViewDesign.Proofs.Script.Readers
import ViewDesign.Proofs.Script.Scanning

/-!
# Generated map functions as expressions

The text of a generated map function is a template with four holes: a class, a condition, a key and
a value.  Whatever text is an expression on its own is that same expression in its hole: no operator
of the template or of the fragment reaches over the edge.

* `Expr.IsWhole`, `Expr.IsSingle`   a text is an expression on its own;
* `isWhole_filter`                  the condition;
* `isSingle_property`               the values that are no raw expression;
* `isSingle_frame`                  the text is the function.
-/

namespace ViewDesign.Script.Expr

/-- A text is an expression on its own, and no comment is open at its end. -/
def IsWhole (cs : List Char) (e : Expr) : Prop :=
  ∃ ts, Lexeme.Scanned cs ts ∧ Parser.expression (16 * (ts.length + 1)) ts = some (e, [])

/-- The same for an expression that no comma divides. -/
def IsSingle (cs : List Char) (e : Expr) : Prop :=
  ∃ ts, Lexeme.Scanned cs ts ∧ Parser.assignment (16 * (ts.length + 1)) ts = some (e, [])

theorem IsSingle.parse {cs : List Char} {e : Expr} (h : IsSingle cs e) :
    parseSingle? cs = some e := by
  obtain ⟨ts, hts, hread⟩ := h
  simp [parseSingle?, hts.scan, hread, Parser.whole?]

theorem IsWhole.ne_nil {cs : List Char} {e : Expr} (h : IsWhole cs e) : cs ≠ [] := by
  rintro rfl
  obtain ⟨ts, ⟨out, s, last, newLine, hrun, -, hlast, rfl⟩, hread⟩ := h
  cases hrun
  cases hlast
  simp [Parser.expression_nil] at hread

end ViewDesign.Script.Expr

namespace ViewDesign.MapFunction.JavaScript

open Script

/-! ## The condition -/

/-- The tokens of the test for the class. -/
def classTokens (className : String) : List Lexeme :=
  [word "doc", mark .dot, word "ruby_class", mark .and, word "doc", mark .dot, word "ruby_class",
    mark .equal, ⟨.text className, false⟩]

/-- The class of the document. -/
def classOf : Expr := .member (.name "doc") (.text "ruby_class")

/-- The test for the class. -/
def ofClass (className : String) : Expr :=
  .and classOf (.binary .equal classOf (.text className))

/-- The test for the class and the condition, if there is one. -/
def testOf (className : String) : Option Expr → Expr
  | none => ofClass className
  | some c => .and (ofClass className) c

theorem filter_none (className : String) : filter className none =
    "doc.ruby_class && doc.ruby_class == ".toList ++ quote className.toList :=
  List.append_nil _

theorem filter_some (className text : String) : filter className (some text) =
    filter className none ++ (" && (".toList ++ (text.toList ++ [')'])) := by
  rw [filter_none, ← List.append_assoc " && (".toList]
  rfl

theorem run_class (className : String) :
    State.initial.run (filter className none) = some (classTokens className, .initial) := by
  have hfixed : State.initial.run "doc.ruby_class && doc.ruby_class == ".toList = some
      ([word "doc", mark .dot, word "ruby_class", mark .and, word "doc", mark .dot,
        word "ruby_class", mark .equal], .initial) := by
    decide
  have hrun := State.run_then hfixed (State.run_quote className.toList false)
  rw [String.ofList_toList] at hrun
  rw [filter_none]
  exact hrun

/-- Tokens that go on with no expression, or only with the next one after a comma. -/
def Closes (rest : List Lexeme) : Prop :=
  Parser.Stops rest ∨ ∃ newLine after, rest = ⟨.mark .comma, newLine⟩ :: after

theorem Closes.cases {rest : List Lexeme} (h : Closes rest) :
    rest = [] ∨ (∃ newLine after, rest = ⟨.mark .closeParen, newLine⟩ :: after) ∨
      (∃ newLine after, rest = ⟨.mark .semicolon, newLine⟩ :: after) ∨
      ∃ newLine after, rest = ⟨.mark .comma, newLine⟩ :: after := by
  obtain h | h := h
  · obtain h | h | h := h.cases
    · exact .inl h
    · exact .inr (.inl h)
    · exact .inr (.inr (.inl h))
  · exact .inr (.inr (.inr h))

section
variable {n level : Nat} {ts rest : List Lexeme} {e : Expr}

/-- what is read with its suffixes is read by the looser readers, up to a place that closes it -/
theorem binary_of_suffixed (h : Parser.suffixed n ts = some (e, rest)) (hrest : Closes rest)
    (hunary : Parser.unary (n + 2) ts = Parser.counted (n + 1) ts) :
    Parser.binary (n + 3) level ts = some (e, rest) := by
  have hread : Parser.unary (n + 2) ts = some (e, rest) := by
    rw [hunary]
    simp only [Parser.counted, h]
    obtain rfl | ⟨_, _, rfl⟩ | ⟨_, _, rfl⟩ | ⟨_, _, rfl⟩ := hrest.cases <;> rfl
  show (Parser.unary (n + 2) ts >>= fun r => Parser.moreBinary (n + 2) level r.1 r.2) = _
  rw [hread]
  obtain rfl | ⟨_, _, rfl⟩ | ⟨_, _, rfl⟩ | ⟨_, _, rfl⟩ := hrest.cases <;> rfl

theorem binary_of_primary (h : Parser.primary (n + 1) ts = some (e, rest)) (hrest : Closes rest)
    (hunary : Parser.unary (n + 4) ts = Parser.counted (n + 3) ts) :
    Parser.binary (n + 5) level ts = some (e, rest) := by
  have hsuffixed : Parser.suffixed (n + 2) ts = some (e, rest) := by
    show (Parser.primary (n + 1) ts >>= fun r => Parser.suffixes (n + 1) r.1 r.2) = _
    rw [h]
    obtain rfl | ⟨_, _, rfl⟩ | ⟨_, _, rfl⟩ | ⟨_, _, rfl⟩ := hrest.cases <;> rfl
  exact binary_of_suffixed hsuffixed hrest hunary

theorem assignment_of_binary (h : Parser.binary n 0 ts = some (e, rest)) (hrest : Closes rest) :
    Parser.assignment (n + 2) ts = some (e, rest) := by
  have hread : Parser.conditional (n + 1) ts = some (e, rest) := by
    simp only [Parser.conditional, h]
    obtain rfl | ⟨_, _, rfl⟩ | ⟨_, _, rfl⟩ | ⟨_, _, rfl⟩ := hrest.cases <;> rfl
  simp only [Parser.assignment, hread]
  obtain rfl | ⟨_, _, rfl⟩ | ⟨_, _, rfl⟩ | ⟨_, _, rfl⟩ := hrest.cases <;> rfl

theorem expression_of_binary (h : Parser.binary n 0 ts = some (e, rest))
    (hrest : Parser.Stops rest) : Parser.expression (n + 3) ts = some (e, rest) := by
  simp only [Parser.expression, assignment_of_binary h (.inl hrest)]
  obtain rfl | ⟨_, _, rfl⟩ | ⟨_, _, rfl⟩ := hrest.cases <;> rfl

theorem primary_paren {b b' : Bool}
    (h : Parser.expression n ts = some (e, ⟨.mark .closeParen, b'⟩ :: rest)) :
    Parser.primary (n + 1) (⟨.mark .openParen, b⟩ :: ts) = some (e, rest) := by
  show (Parser.expression n ts >>= fun r =>
    Parser.expect? .closeParen r.2 >>= fun t => some (r.1, t)) = _
  rw [h]
  rfl

theorem primary_array {b : Bool} {items : List Expr}
    (h : Parser.elements n ts = some (items, rest)) :
    Parser.primary (n + 1) (⟨.mark .openBracket, b⟩ :: ts) = some (.array items, rest) := by
  show (Parser.elements n ts >>= fun r => some (Expr.array r.1, r.2)) = _
  rw [h]
  rfl

end

/-- the condition is the last operand of the test, whatever it is -/
theorem expression_test {n : Nat} {ts : List Lexeme} {c : Expr} (className : String)
    (h : Parser.binary (n + 6) 3 ts = some (c, [])) :
    Parser.expression (n + 12) (classTokens className ++ mark .and :: ts) =
      some (.and (ofClass className) c, []) := by
  have hbinary : Parser.binary (n + 9) 0 (classTokens className ++ mark .and :: ts) =
      (Parser.binary (n + 6) 3 ts >>= fun r =>
        Parser.moreBinary (n + 6) 0 (.and (ofClass className) r.1) r.2) := rfl
  rw [h] at hbinary
  exact expression_of_binary hbinary trivial

/-- the test for the class is an expression on its own, with and without a condition -/
theorem isWhole_filter (className : String) {conditions : Option String} {c : Option Expr}
    (h : Option.Rel (fun text e => Expr.IsWhole text.toList e) conditions c) :
    Expr.IsWhole (filter className conditions) (testOf className c) := by
  have hclass := run_class className
  cases h with
  | none =>
    exact ⟨classTokens className, .of_ready hclass, rfl⟩
  | @some text e h =>
    have hne := h.ne_nil
    obtain ⟨ts, hscan, hread⟩ := h
    obtain ⟨newLine, hstop⟩ := hscan.run_stop (c := ')') (k := .closeParen) rfl
    have hopen : State.initial.run " && (".toList =
        some ([mark .and], ⟨.mark .openParen, false⟩) := by
      decide
    have hinside := State.run_after (k := .openParen) (fun _ _ => rfl) false
      (List.append_ne_nil_of_left_ne_nil hne [')']) hstop
    have hrun : State.initial.run (filter className (some text)) = some
        (classTokens className ++ mark .and :: mark .openParen :: ts,
          ⟨.mark .closeParen, newLine⟩) := by
      rw [filter_some]
      exact State.run_then hclass (State.run_then hopen hinside)
    have hbinary : Parser.binary (16 * (ts.length + 1) + 5) 3 (mark .openParen ::
        (ts ++ [⟨.mark .closeParen, newLine⟩])) = some (e, []) := by
      have hstops : Parser.Stops [⟨.mark .closeParen, newLine⟩] := .inl rfl
      have hparen := primary_paren (b := false) (Parser.expression_grow hread (Nat.le_refl _) hstops)
      exact binary_of_primary hparen (.inl trivial) rfl
    refine ⟨_, .of_mark hrun, ?_⟩
    have hsteps : 16 * ((classTokens className ++ mark .and :: mark .openParen :: ts ++
        [(⟨.mark .closeParen, newLine⟩ : Lexeme)]).length + 1) = 16 * (ts.length + 1) + 192 := by
      simp only [List.length_append, List.length_cons, List.length_nil, classTokens]
      omega
    rw [hsteps, List.append_assoc]
    refine expression_test (n := 16 * (ts.length + 1) + 180) className ?_
    have hgrown := Parser.binary_grow hbinary (m := 16 * (ts.length + 1) + 186) (by omega)
      (show Parser.Stops [] from trivial)
    rwa [List.append_nil] at hgrown

/-! ## The key -/

/-- The lookup of a property. -/
def propertyOf (p : String) : Expr := .member (.name "doc") (.text p)

/-- The key of a row. -/
def keyOf : Option Key → Expr
  | none => .text ""
  | some (.single p) => propertyOf p
  | some (.composite ps) => .array (ps.map propertyOf)

/-- The tokens of a lookup. -/
def propertyTokens (p : String) : List Lexeme :=
  [word "doc", mark .openBracket, ⟨.text p, false⟩, mark .closeBracket]

/-- The tokens of lookups after the first one. -/
def moreTokens : List String → List Lexeme
  | [] => []
  | p :: ps => mark .comma :: (propertyTokens p ++ moreTokens ps)

/-- The tokens of the elements of a composite key and of the bracket after them. -/
def elementTokens : List String → List Lexeme
  | [] => [mark .closeBracket]
  | p :: ps => propertyTokens p ++ moreTokens ps ++ [mark .closeBracket]

/-- The tokens of a key. -/
def keyTokens : Option Key → List Lexeme
  | none => [⟨.text "", false⟩]
  | some (.single p) => propertyTokens p
  | some (.composite ps) => mark .openBracket :: elementTokens ps

/-- After a closing bracket. -/
def bracketed : State := ⟨.mark .closeBracket, false⟩

theorem run_property (p : String) : State.initial.run (property p) =
    some ([word "doc", mark .openBracket, ⟨.text p, false⟩], bracketed) := by
  have hopen : State.initial.run "doc[".toList =
      some ([word "doc"], ⟨.mark .openBracket, false⟩) := by
    decide
  have hquote := State.run_after (k := .openBracket) (fun _ _ => rfl) false (by simp [quote])
    (State.run_quote p.toList false)
  have hclose : (State.mk .ready false).run [']'] = some ([], bracketed) := rfl
  have hrun := State.run_then (State.run_then hopen hquote) hclose
  rw [String.ofList_toList] at hrun
  exact hrun

theorem run_moreProperties (ps : List String) :
    bracketed.run (moreProperties ps ++ [']']) =
      some (mark .closeBracket :: moreTokens ps, bracketed) := by
  induction ps with
  | nil => rfl
  | cons p ps ih =>
    have hcomma : bracketed.run [',', ' '] =
        some ([mark .closeBracket, mark .comma], .initial) := rfl
    have htext : moreProperties (p :: ps) ++ [']'] =
        [',', ' '] ++ (property p ++ (moreProperties ps ++ [']'])) := by
      simp [moreProperties]
    rw [htext, State.run_then hcomma (State.run_then (run_property p) ih)]
    rfl

theorem run_key (k : Option Key) :
    State.initial.run (key k ++ [',', ' ']) = some (keyTokens k ++ [mark .comma], .initial) := by
  have hcomma : bracketed.run [',', ' '] = some ([mark .closeBracket, mark .comma], .initial) := rfl
  have hopen : State.initial.run ['['] = some ([], ⟨.mark .openBracket, false⟩) := rfl
  match k with
  | none => decide
  | some (.single p) =>
    rw [key, State.run_then (run_property p) hcomma]
    rfl
  | some (.composite []) => decide
  | some (.composite (p :: ps)) =>
    have hfirst := State.run_after (k := .openBracket) (fun _ _ => rfl) false
      (by simp [property]) (run_property p)
    have hrun := State.run_then hopen (State.run_then hfirst (run_moreProperties ps))
    have hkey : key (some (.composite (p :: ps))) =
        ['['] ++ (property p ++ (moreProperties ps ++ [']'])) := by
      simp [key, properties]
    rw [hkey, State.run_then hrun hcomma]
    simp [keyTokens, elementTokens, propertyTokens, mark]

theorem assignment_property (n : Nat) (p : String) (b : Bool) (k : Mark) (rest : List Lexeme)
    (hk : k = .comma ∨ k = .closeBracket) :
    Parser.assignment (n + 16) (propertyTokens p ++ ⟨.mark k, b⟩ :: rest) =
      some (propertyOf p, ⟨.mark k, b⟩ :: rest) := by
  obtain rfl | rfl := hk <;> rfl

section
variable {n : Nat} {ts rest : List Lexeme} {w : String} {e : Expr} {b b' : Bool}

theorem elements_last (h : Parser.assignment n (⟨.word w, b⟩ :: ts) =
      some (e, ⟨.mark .closeBracket, b'⟩ :: rest)) :
    Parser.elements (n + 1) (⟨.word w, b⟩ :: ts) = some ([e], rest) := by
  simp only [Parser.elements, h]
  rfl

theorem elements_next {after : List Lexeme} {es : List Expr}
    (h : Parser.assignment n (⟨.word w, b⟩ :: ts) = some (e, ⟨.mark .comma, b'⟩ :: after))
    (hrest : Parser.elements n after = some (es, rest)) :
    Parser.elements (n + 1) (⟨.word w, b⟩ :: ts) = some (e :: es, rest) := by
  simp only [Parser.elements, h]
  show (Parser.elements n after >>= fun r => some (e :: r.1, r.2)) = _
  rw [hrest]
  rfl

end

theorem elements_properties (n : Nat) (p : String) (ps : List String) (rest : List Lexeme) :
    Parser.elements (n + ps.length + 17) (propertyTokens p ++ (moreTokens ps ++
      mark .closeBracket :: rest)) = some ((p :: ps).map propertyOf, rest) := by
  induction ps generalizing p with
  | nil => exact elements_last (assignment_property n p false .closeBracket rest (.inr rfl))
  | cons q qs ih =>
    have hfirst := assignment_property (n + qs.length + 1) p false .comma
      (propertyTokens q ++ (moreTokens qs ++ mark .closeBracket :: rest)) (.inl rfl)
    have htokens : moreTokens (q :: qs) ++ mark .closeBracket :: rest =
        mark .comma :: (propertyTokens q ++ (moreTokens qs ++ mark .closeBracket :: rest)) := by
      simp [moreTokens]
    rw [htokens]
    exact elements_next hfirst (ih q)

theorem length_moreTokens (ps : List String) : (moreTokens ps).length = ps.length * 5 := by
  induction ps with
  | nil => rfl
  | cons p ps ih =>
    simp only [moreTokens, propertyTokens, List.length_cons, List.length_append, ih, List.length_nil]
    omega

/-- a key is read up to the comma after it -/
theorem assignment_key (n : Nat) (k : Option Key) (b : Bool) (rest : List Lexeme) :
    Parser.assignment (n + (keyTokens k).length + 25) (keyTokens k ++ ⟨.mark .comma, b⟩ :: rest) =
      some (keyOf k, ⟨.mark .comma, b⟩ :: rest) := by
  match k with
  | none => rfl
  | some (.single p) => exact assignment_property _ p b .comma rest (.inl rfl)
  | some (.composite []) => rfl
  | some (.composite (p :: ps)) =>
    have hlength : (keyTokens (some (.composite (p :: ps)))).length = ps.length * 5 + 6 := by
      simp [keyTokens, elementTokens, propertyTokens, length_moreTokens]
    have harray := primary_array (b := false)
      (elements_properties (n + ps.length * 4 + 7) p ps (⟨.mark .comma, b⟩ :: rest))
    have hclose : Closes (⟨.mark .comma, b⟩ :: rest) := .inr ⟨b, rest, rfl⟩
    have hread := assignment_of_binary
      (binary_of_primary harray hclose rfl) hclose
    have htokens : keyTokens (some (.composite (p :: ps))) ++ ⟨.mark .comma, b⟩ :: rest =
        mark .openBracket :: (propertyTokens p ++ (moreTokens ps ++
          mark .closeBracket :: ⟨.mark .comma, b⟩ :: rest)) := by
      simp [keyTokens, elementTokens]
    have hsteps : n + (ps.length * 5 + 6) + 25 =
        n + ps.length * 4 + 7 + ps.length + 17 + 1 + 4 + 2 := by
      omega
    rw [hlength, htokens, hsteps]
    exact hread

/-! ## The value -/

/-- The integer that a row has as its value. -/
def integerOf (i : Int) : Expr :=
  if i < 0 then .unary .negate (.number (.ofInt i.natAbs)) else .number (.ofInt i.natAbs)

theorem run_digits {ds : List Char} (hds : ∀ c ∈ ds, c.isDigit = true) (chars : List Char)
    (newLine : Bool) :
    (State.mk (.numeral chars) newLine).run ds =
      some ([], ⟨.numeral (ds.reverse ++ chars), newLine⟩) := by
  induction ds generalizing chars with
  | nil => rfl
  | cons d ds ih =>
    have hd : d.isDigit = true := hds d (List.mem_cons_self ..)
    have hstep : (State.mk (.numeral chars) newLine).step d =
        some ([], ⟨.numeral (d :: chars), newLine⟩) := by
      simp [State.step, Mode.extend?, continuesNumeral, isWordPart, hd]
    rw [State.run_cons hstep (ih (fun c hc => hds c (List.mem_cons_of_mem _ hc)) (d :: chars))]
    simp

theorem begin?_digit : ∀ d < 10, ∀ newLine, State.begin? newLine (Decimal.digitChar d) =
    some ⟨.numeral [Decimal.digitChar d], newLine⟩ := by
  decide

theorem run_natural (n : Nat) (newLine : Bool) :
    (State.mk .ready newLine).run (Decimal.digitsOf n) =
      some ([], ⟨.numeral (Decimal.digitsOf n).reverse, newLine⟩) := by
  have hdigits := Decimal.digitsOf_isDigit n
  cases hn : Decimal.digitsOf n with
  | nil => exact absurd hn (Decimal.digitsOf_ne_nil n)
  | cons c ds =>
    obtain ⟨d, hd, rfl⟩ := Decimal.mem_digitsOf (hn ▸ List.mem_cons_self ..)
    rw [hn, List.forall_mem_cons] at hdigits
    have hstart : (State.mk .ready newLine).step (Decimal.digitChar d) =
        some ([], ⟨.numeral [Decimal.digitChar d], newLine⟩) := by
      simp [State.step, Mode.extend?, State.settle?, Mode.token?, begin?_digit d hd newLine]
    rw [State.run_cons hstart (run_digits hdigits.2 _ newLine)]
    simp

theorem read?_digitsOf (n : Nat) : Decimal.read? (Decimal.digitsOf n) = some ⟨n, 0⟩ := by
  have hdigits := Decimal.digitsOf_isDigit n
  have hsplit : (Decimal.digitsOf n ++ []).takeWhile Char.isDigit = Decimal.digitsOf n ∧
      (Decimal.digitsOf n ++ []).dropWhile Char.isDigit = [] :=
    Numeral.takeWhile_digits hdigits fun _ _ h => nomatch h
  rw [List.append_nil] at hsplit
  have hne : (Decimal.digitsOf n).isEmpty = false := by
    simpa using Decimal.digitsOf_ne_nil n
  simp [Decimal.read?, hsplit, hne, Decimal.exponent?, Decimal.valueOf_digitsOf]

/-- digits without a leading zero are a decimal -/
theorem numeral?_digitsOf (n : Nat) : numeral? (Decimal.digitsOf n) = some (.ofInt n) := by
  have hdecimal : (Decimal.read? (Decimal.digitsOf n)).map Number.ofDecimal = some (.ofInt n) := by
    rw [read?_digitsOf]
    simp [Number.ofDecimal]
  by_cases hn : n = 0
  · subst hn
    rw [Decimal.digitsOf_zero] at hdecimal ⊢
    exact hdecimal
  · obtain ⟨c, r, hcr, hc⟩ := Decimal.digitsOf_head hn
    rw [hcr] at hdecimal ⊢
    unfold numeral?
    split
    · rename_i heq
      cases heq
      exact absurd rfl hc
    · exact hdecimal

theorem extend?_minus : ∀ d < 10, Mark.minus.extend? (Decimal.digitChar d) = none := by
  decide

/-- an integer is an expression on its own -/
theorem isSingle_integer (i : Int) : Expr.IsSingle (Decimal.ofInt i) (integerOf i) := by
  have hsettle : ∀ (n : Nat) (newLine : Bool),
      (State.mk (.numeral (Decimal.digitsOf n).reverse) newLine).settle? =
        some ([⟨.number (.ofInt n), newLine⟩], false) := by
    intro n newLine
    simp [State.settle?, Mode.token?, numeral?_digitsOf]
  cases i with
  | ofNat n =>
    refine ⟨[⟨.number (.ofInt n), false⟩], ⟨[], _, _, false, run_natural n false,
      Mode.noConfusion, hsettle n false, rfl⟩, ?_⟩
    rw [integerOf, if_neg (by simp)]
    rfl
  | negSucc n =>
    have hminus : State.initial.step '-' = some ([], ⟨.mark .minus, false⟩) := rfl
    have hrun : (State.mk (.mark .minus) false).run (Decimal.digitsOf (n + 1)) =
        some ([mark .minus], ⟨.numeral (Decimal.digitsOf (n + 1)).reverse, false⟩) := by
      refine State.run_after ?_ false (Decimal.digitsOf_ne_nil _) (run_natural (n + 1) false)
      intro c hc
      obtain ⟨d, hd, rfl⟩ := Decimal.mem_digitsOf (List.mem_of_mem_head? hc)
      exact extend?_minus d hd
    refine ⟨[mark .minus, ⟨.number (.ofInt (n + 1 : Nat)), false⟩], ⟨[mark .minus], _, _, false,
      State.run_cons hminus hrun, Mode.noConfusion, hsettle (n + 1) false, rfl⟩, ?_⟩
    rw [integerOf, if_pos (Int.negSucc_lt_zero n)]
    rfl

theorem isSingle_one : Expr.IsSingle ['1'] (.number (.int 1)) := by
  have h := isSingle_integer 1
  have htext : Decimal.ofInt 1 = ['1'] := Decimal.digitsOf_of_lt (by decide)
  rwa [htext] at h

theorem isSingle_property (p : String) : Expr.IsSingle (property p) (propertyOf p) :=
  ⟨_, .of_mark (run_property p), rfl⟩

/-! ## The function -/

/-- The body of a map function: a row with a key and a value for the documents that pass a test. -/
def bodyOf (test key value : Expr) : List Stmt :=
  [.when test (.block [.expression (.call (.name "emit") [key, value])])]

/-- The tokens of a map function up to the test. -/
def functionTokens : List Lexeme :=
  [word "function", mark .openParen, word "doc", mark .closeParen, mark .openBrace,
    (word "if").broken, mark .openParen]

/-- The tokens between the test and the key. -/
def emitTokens (b : Bool) : List Lexeme :=
  [⟨.mark .closeParen, b⟩, mark .openBrace, (word "emit").broken, mark .openParen]

/-- The tokens after the value. -/
def endTokens (b : Bool) : List Lexeme :=
  [⟨.mark .closeParen, b⟩, mark .semicolon, (mark .closeBrace).broken, (mark .closeBrace).broken]

theorem run_function : State.initial.run "function(doc) \x7b\n  if(".toList =
    some (functionTokens.take 6, ⟨.mark .openParen, false⟩) := by
  decide

theorem run_emit (b : Bool) : (State.mk (.mark .closeParen) b).run " \x7b\n    emit(".toList =
    some ((emitTokens b).take 3, ⟨.mark .openParen, false⟩) := by
  cases b <;> decide

theorem run_end (b : Bool) : (State.mk (.mark .closeParen) b).run ";\n  \x7d\n\x7d".toList =
    some ((endTokens b).take 3, ⟨.mark .closeBrace, true⟩) := by
  cases b <;> decide

theorem frame_eq (condition key value : List Char) : frame condition key value =
    "function(doc) \x7b\n  if(".toList ++ ((condition ++ [')']) ++ (" \x7b\n    emit(".toList ++
      ((key ++ [',', ' ']) ++ ((value ++ [')']) ++ ";\n  \x7d\n\x7d".toList)))) := by
  have hopen : ") \x7b\n    emit(".toList = [')'] ++ " \x7b\n    emit(".toList := by
    simp
  have hcomma : ", ".toList = [',', ' '] := by
    simp
  have hend : ");\n  \x7d\n\x7d".toList = [')'] ++ ";\n  \x7d\n\x7d".toList := by
    simp
  unfold frame
  rw [hopen, hcomma, hend]
  simp only [List.append_assoc]

/-- the tokens of a map function, around those of its test and its value -/
theorem scanned_frame {condition value : List Char} {cts vts : List Lexeme} {b b' : Bool}
    (k : Option Key) (hne : condition ≠ [])
    (hcondition : State.initial.run (condition ++ [')']) = some (cts, ⟨.mark .closeParen, b⟩))
    (hvalue : State.initial.run (value ++ [')']) = some (vts, ⟨.mark .closeParen, b'⟩)) :
    Lexeme.Scanned (frame condition (key k) value) (functionTokens ++ (cts ++ (emitTokens b ++
      (keyTokens k ++ (mark .comma :: (vts ++ endTokens b')))))) := by
  have htest := State.run_after (k := .openParen) (fun _ _ => rfl) false
    (List.append_ne_nil_of_left_ne_nil hne [')']) hcondition
  have hkey := State.run_after (k := .openParen) (fun _ _ => rfl) false
    (List.append_ne_nil_of_right_ne_nil (key k) (by simp)) (run_key k)
  have hrun := State.run_then run_function (State.run_then htest (State.run_then (run_emit b)
    (State.run_then hkey (State.run_then hvalue (run_end b')))))
  rw [← frame_eq] at hrun
  have hscanned := Lexeme.Scanned.of_mark hrun
  simp only [functionTokens, emitTokens, endTokens, List.take_succ_cons, List.take_zero,
    List.cons_append, List.nil_append, List.append_assoc] at hscanned ⊢
  exact hscanned

section
variable {n : Nat} {ts rest : List Lexeme} {e : Expr} {b : Bool}

theorem arguments_last (h : Parser.assignment n ts = some (e, ⟨.mark .closeParen, b⟩ :: rest)) :
    Parser.arguments (n + 1) ts = some ([e], rest) := by
  simp only [Parser.arguments]
  split
  · rw [(Parser.noStart_closeParen ..).assignment] at h
    cases h
  · rw [h]
    rfl

theorem arguments_next {after : List Lexeme} {es : List Expr}
    (h : Parser.assignment n ts = some (e, ⟨.mark .comma, b⟩ :: after))
    (hrest : Parser.arguments n after = some (es, rest)) :
    Parser.arguments (n + 1) ts = some (e :: es, rest) := by
  simp only [Parser.arguments]
  split
  · rw [(Parser.noStart_closeParen ..).assignment] at h
    cases h
  · rw [h]
    show (Parser.arguments n after >>= fun r => some (e :: r.1, r.2)) = _
    rw [hrest]
    rfl

theorem expression_call {args : List Expr}
    (h : Parser.arguments (n + 1) ts = some (args, ⟨.mark .semicolon, b⟩ :: rest)) :
    Parser.expression (n + 9) ((word "emit").broken :: mark .openParen :: ts) =
      some (.call (.name "emit") args, ⟨.mark .semicolon, b⟩ :: rest) := by
  have hsuffixed : Parser.suffixed (n + 3) ((word "emit").broken :: mark .openParen :: ts) =
      some (.call (.name "emit") args, ⟨.mark .semicolon, b⟩ :: rest) := by
    show (Parser.arguments (n + 1) ts >>= fun r =>
      Parser.suffixes (n + 1) (.call (.name "emit") r.1) r.2) = _
    rw [h]
    rfl
  have hstops : Parser.Stops (⟨.mark .semicolon, b⟩ :: rest) := .inr rfl
  exact expression_of_binary (binary_of_suffixed hsuffixed (.inl hstops) rfl) hstops

theorem statement_block {args : List Expr} {b' : Bool}
    (h : Parser.arguments (n + 1) ts =
      some (args, ⟨.mark .semicolon, b⟩ :: ⟨.mark .closeBrace, b'⟩ :: rest)) :
    Parser.statement (n + 12) (mark .openBrace :: (word "emit").broken :: mark .openParen :: ts) =
      some (.block [.expression (.call (.name "emit") args)], rest) := by
  have hcall : Parser.statement (n + 10) ((word "emit").broken :: mark .openParen :: ts) =
      some (.expression (.call (.name "emit") args), ⟨.mark .closeBrace, b'⟩ :: rest) := by
    rw [Parser.statement_expression (by simp [word, Lexeme.broken])
      (by simp [word, Lexeme.broken]) (by simp [word, Lexeme.broken]), expression_call h]
    rfl
  show (Parser.statement (n + 10) ((word "emit").broken :: mark .openParen :: ts) >>= fun r =>
    Parser.body (n + 10) r.2 >>= fun r' => some (r.1 :: r'.1, r'.2)) >>= _ = _
  rw [hcall]
  rfl

theorem statement_if {test : Expr} {yes : Stmt} {after : List Lexeme} {b' : Bool}
    (htest : Parser.expression n ts = some (test, ⟨.mark .closeParen, b⟩ :: after))
    (hyes : Parser.statement n after = some (yes, ⟨.mark .closeBrace, b'⟩ :: rest))
    (hinner : yes.isInner = true) :
    Parser.statement (n + 1) ((word "if").broken :: mark .openParen :: ts) =
      some (.when test yes, ⟨.mark .closeBrace, b'⟩ :: rest) := by
  show (Parser.expression n ts >>= fun r => _) = _
  rw [htest]
  show (Parser.statement n after >>= fun r => _) = _
  rw [hyes]
  show (Parser.require yes.isInner >>= fun _ => _) = _
  rw [hinner]
  rfl

theorem assignment_function {s : Stmt} {b' : Bool}
    (h : Parser.statement (n + 1) ((word "if").broken :: ts) = some (s, [⟨.mark .closeBrace, b'⟩])) :
    Parser.assignment (n + 10) (word "function" :: mark .openParen :: word "doc" ::
      mark .closeParen :: mark .openBrace :: (word "if").broken :: ts) =
        some (.function none ["doc"] [s], []) := by
  have hbody : Parser.body (n + 2) ((word "if").broken :: ts) = some ([s], []) := by
    show (Parser.statement (n + 1) ((word "if").broken :: ts) >>= fun r =>
      Parser.body (n + 1) r.2 >>= fun r' => some (r.1 :: r'.1, r'.2)) = _
    rw [h]
    rfl
  have hprimary : Parser.primary (n + 4) (word "function" :: mark .openParen :: word "doc" ::
      mark .closeParen :: mark .openBrace :: (word "if").broken :: ts) =
        some (.function none ["doc"] [s], []) := by
    show (Parser.body (n + 2) ((word "if").broken :: ts) >>= fun r =>
      some (["doc"], r.1, r.2)) >>= _ = _
    rw [hbody]
    rfl
  exact assignment_of_binary (binary_of_primary hprimary (.inl trivial) rfl) (.inl trivial)

end

/-- **A generated map function is one function expression, with the test, the key and the value in
their places.** -/
theorem isSingle_frame {condition value : List Char} {test v : Expr} (k : Option Key)
    (htest : Expr.IsWhole condition test) (hvalue : Expr.IsSingle value v) :
    Expr.IsSingle (frame condition (key k) value)
      (.function none ["doc"] (bodyOf test (keyOf k) v)) := by
  have hne := htest.ne_nil
  obtain ⟨cts, hcts, hcread⟩ := htest
  obtain ⟨vts, hvts, hvread⟩ := hvalue
  obtain ⟨b, hcrun⟩ := hcts.run_stop (c := ')') (k := .closeParen) rfl
  obtain ⟨b', hvrun⟩ := hvts.run_stop (c := ')') (k := .closeParen) rfl
  refine ⟨_, scanned_frame k hne hcrun hvrun, ?_⟩
  have hsteps : ∃ x, 16 * ((functionTokens ++ (cts ++ (emitTokens b ++ (keyTokens k ++
      (mark .comma :: (vts ++ endTokens b')))))).length + 1) = x + (keyTokens k).length + 47 ∧
        16 * (cts.length + 1) ≤ x ∧ 16 * (vts.length + 1) ≤ x := by
    refine ⟨16 * (cts.length + vts.length + 17) + 15 * (keyTokens k).length - 47, ?_, ?_, ?_⟩
    · simp only [List.length_append, List.length_cons, functionTokens, emitTokens, endTokens,
        List.length_nil]
      omega
    · omega
    · omega
  obtain ⟨x, hx, hcle, hvle⟩ := hsteps
  rw [hx]
  have hstops : ∀ (b : Bool) (rest : List Lexeme), Parser.Stops (⟨.mark .closeParen, b⟩ :: rest) :=
    fun _ _ => .inl rfl
  have hvalue := arguments_last (Parser.assignment_grow hvread
    (m := x + (keyTokens k).length + 24) (by omega) (hstops b' ((endTokens b').drop 1)))
  have harguments := arguments_next
    (assignment_key x k false (vts ++ ⟨.mark .closeParen, b'⟩ :: (endTokens b').drop 1)) hvalue
  have htest := Parser.expression_grow hcread (m := x + (keyTokens k).length + 37) (by omega)
    (hstops b ((emitTokens b).drop 1 ++ (keyTokens k ++ (mark .comma :: (vts ++ endTokens b')))))
  exact assignment_function (statement_if htest (statement_block harguments) rfl)

end ViewDesign.MapFunction.JavaScript
