import ViewDesign.MapFunction.Erlang
import ViewDesign.Proofs.Decimal.Digits
import ViewDesign.Proofs.Erlang.Syntax
import ViewDesign.Proofs.Text.Bytes

/-!
# The structure of a map function in Erlang

Names go into the text as binaries, and the variables of a composite key carry the places of its
properties.  Whatever the names are, the text is read as one and the same tree.

* `escape_eq_flatMap`       escaping in two passes is escaping in one;
* `run_binary`              a binary is the same tokens whatever the text is, but for the text;
* `primary_binary`          they denote the UTF-8 bytes of the text;
* `functionOf`              the tree of a map function;
* `source_reads`            this is what the generated text is read as.
-/

namespace ViewDesign.MapFunction.Erlang

open ViewDesign.Erlang

/-! ## Escaped texts -/

/-- A character inside a double-quoted literal. -/
def escapeChar (c : Char) : List Char := if c = '\\' ∨ c = '"' then ['\\', c] else [c]

/-- two passes are one: the second one leaves the backslashes of the first alone -/
theorem escape_eq_flatMap (cs : List Char) : escape cs = cs.flatMap escapeChar := by
  induction cs with
  | nil => rfl
  | cons c cs ih =>
    simp only [escape, guardChar, List.flatMap_cons, List.flatMap_append] at ih ⊢
    rw [ih]
    congr 1
    by_cases hslash : c = '\\'
    · subst hslash
      rfl
    · by_cases hquote : c = '"' <;> simp [escapeChar, hslash, hquote]

theorem run_escapeChar (c : Char) (chars : List Char) :
    (Mode.text chars).run (escapeChar c) = some ([], .text (c :: chars)) := by
  unfold escapeChar
  split
  · rename_i h
    obtain rfl | rfl := h <;> rfl
  · rename_i h
    obtain ⟨hslash, hquote⟩ := not_or.mp h
    simp [Mode.run, Mode.step, hslash, hquote]

theorem run_escape (cs chars : List Char) :
    (Mode.text chars).run (escape cs) = some ([], .text (cs.reverse ++ chars)) := by
  rw [escape_eq_flatMap]
  induction cs generalizing chars with
  | nil => rfl
  | cons c cs ih =>
    have h := Mode.run_then (run_escapeChar c chars) (ih (c :: chars))
    simpa using h

/-! ## Binaries -/

/-- Whether a text needs no mark of its encoding. -/
def isAscii (cs : List Char) : Bool := cs.all (·.toNat < 128)

/-- The tokens of a binary after its string. -/
def markTokens (cs : List Char) : List Token :=
  if isAscii cs then [] else [.mark .slash, .atom "utf8"]

/-- The tokens of a binary. -/
def binaryTokens (cs : List Char) : List Token :=
  .mark .openBinary :: .text cs :: (markTokens cs ++ [.mark .closeBinary])

/-- A binary without its last character. -/
def unclosed (cs : List Char) : List Char :=
  "<<\"".toList ++ escape cs ++ ['"'] ++ (if isAscii cs then [] else "/utf8".toList) ++ ['>']

theorem binary_eq (cs : List Char) : binary cs = unclosed cs ++ ['>'] :=
  (List.append_assoc _ ['>'] ['>']).symm

/-- the tokens of a binary before its last character, whatever the text is -/
theorem run_unclosed (cs : List Char) :
    Mode.ready.run (unclosed cs) =
      some (.mark .openBinary :: .text cs :: markTokens cs, .greater) := by
  have hopen : Mode.ready.run "<<\"".toList = some ([.mark .openBinary], .text []) := by decide
  have hclose : (Mode.text (cs.reverse ++ [])).run ['"'] = some ([.text cs], .ready) := by
    simp [Mode.run, Mode.step]
  have hstring := Mode.run_then (Mode.run_then hopen (run_escape cs [])) hclose
  have hend : Mode.ready.run ['>'] = some ([], .greater) := by decide
  have hmark : Mode.ready.run "/utf8>".toList =
      some ([.mark .slash, .atom "utf8"], .greater) := by decide
  unfold unclosed markTokens
  by_cases hascii : isAscii cs = true
  · simp only [if_pos hascii, List.append_nil]
    exact Mode.run_then hstring hend
  · simp only [if_neg hascii]
    rw [List.append_assoc _ "/utf8".toList]
    exact Mode.run_then hstring hmark

/-- the tokens of a binary, whatever the text is -/
theorem run_binary (cs : List Char) :
    Mode.ready.run (binary cs) = some (binaryTokens cs, .ready) := by
  have hend : Mode.greater.run ['>'] = some ([.mark .closeBinary], .ready) := by decide
  rw [binary_eq]
  exact Mode.run_then (run_unclosed cs) hend

/-- The UTF-8 bytes of a text. -/
def utf8 (s : String) : List UInt8 := s.toUTF8.data.toList

theorem utf8_eq_flatMap (s : String) : utf8 s = s.toList.flatMap String.utf8EncodeChar :=
  Bytes.ofText_eq_flatMap s

/-- an ASCII text has one byte for each character -/
theorem segmentBytes_ascii {cs : List Char} (h : isAscii cs = true) :
    segmentBytes false cs = cs.flatMap String.utf8EncodeChar := by
  induction cs with
  | nil => rfl
  | cons c cs ih =>
    simp only [isAscii, List.all_cons, Bool.and_eq_true, decide_eq_true_eq] at h
    have hle : c.toNat ≤ 127 := by omega
    have hc : String.utf8EncodeChar c = [UInt8.ofNat c.toNat] := by
      simp [String.utf8EncodeChar, hle]
    have hcs := ih h.2
    simp only [segmentBytes, Bool.false_eq_true, if_false, List.map_cons, List.flatMap_cons] at hcs ⊢
    rw [hcs, hc]
    rfl

/-- the tokens of a binary denote the bytes of the text -/
theorem primary_binary (n : Nat) (s : String) (rest : List Token) :
    Parser.primary (n + 1) (binaryTokens s.toList ++ rest) = some (.binary (utf8 s), rest) := by
  rw [utf8_eq_flatMap]
  by_cases h : isAscii s.toList = true
  · rw [← segmentBytes_ascii h]
    simp only [binaryTokens, markTokens, if_pos h]
    rfl
  · simp only [binaryTokens, markTokens, if_neg h]
    rfl

/-! ## Words -/

theorem run_wordParts {ds : List Char} (h : ∀ d ∈ ds, isWordPart d = true) (chars : List Char) :
    (Mode.word chars).run ds = some ([], .word (ds.reverse ++ chars)) := by
  induction ds generalizing chars with
  | nil => rfl
  | cons d ds ih =>
    rw [List.forall_mem_cons] at h
    have hstep : (Mode.word chars).step d = some ([], .word (d :: chars)) := by
      simp [Mode.step, h.1]
    rw [Mode.run_cons hstep (ih h.2 (d :: chars))]
    simp

/-- a word before a character that is no part of it -/
theorem run_word {c d : Char} {w cs : List Char} {out : List Token} {m : Mode}
    (hc : Mode.begin? c = some ([], .word [c])) (hw : ∀ e ∈ w, isWordPart e = true)
    (hd : isWordPart d = false) (h : Mode.ready.run (d :: cs) = some (out, m)) :
    Mode.ready.run (c :: w ++ d :: cs) = some (.ofWord (c :: w) :: out, m) := by
  have hword : Mode.ready.run (c :: w) = some ([], .word (w.reverse ++ [c])) :=
    Mode.run_cons (m := .ready) hc (run_wordParts hw [c])
  have hend : (Mode.word (w.reverse ++ [c])).run (d :: cs) =
      some (.ofWord (c :: w) :: out, m) := by
    simp only [Mode.run, Mode.step, hd, Bool.false_eq_true, if_false, Mode.after?] at h ⊢
    have hchars : (w.reverse ++ [c]).reverse = c :: w := by simp
    rw [hchars]
    cases hbegin : Mode.begin? d with
    | none =>
      rw [hbegin] at h
      cases h
    | some r =>
      obtain ⟨first, m'⟩ := r
      rw [hbegin] at h
      simp only [Option.bind_eq_bind, Option.bind_some, Option.map_some] at h ⊢
      cases hrun : m'.run cs with
      | none =>
        rw [hrun] at h
        cases h
      | some r =>
        rw [hrun] at h
        cases h
        rfl
  exact Mode.run_then hword hend

/-! ## Variables of keys -/

/-- The variable of the property at a place. -/
def keyName (i : Nat) : String := String.ofList (keyVariable i)

theorem keyName_injective : Function.Injective keyName := by
  intro i j h
  have hchars : keyVariable i = keyVariable j := String.ofList_injective h
  have hdigits : Decimal.digitsOf i = Decimal.digitsOf j := List.append_cancel_left hchars
  rw [← Decimal.valueOf_digitsOf i, hdigits, Decimal.valueOf_digitsOf j]

theorem keyVariable_eq (i : Nat) :
    keyVariable i = 'K' :: (['e', 'y', '_'] ++ Decimal.digitsOf i) := by
  simp [keyVariable]

/-- The variables of a key, each with the property it is bound to. -/
def bindings : Option Key → List (String × String)
  | none => []
  | some (.single p) => [("Key", p)]
  | some (.composite ps) => ps.mapIdx fun i p => (keyName i, p)

theorem run_keyVariable {d : Char} {cs : List Char} {out : List Token} {m : Mode} (i : Nat)
    (hd : isWordPart d = false) (h : Mode.ready.run (d :: cs) = some (out, m)) :
    Mode.ready.run (keyVariable i ++ d :: cs) = some (.variable (keyName i) :: out, m) := by
  have hparts : ∀ e ∈ ['e', 'y', '_'] ++ Decimal.digitsOf i, isWordPart e = true := by
    intro e he
    rcases List.mem_append.mp he with he | he
    · have hfixed : ['e', 'y', '_'].all isWordPart = true := by decide
      exact List.all_eq_true.mp hfixed e he
    · have hdigit := Decimal.digitsOf_isDigit i e he
      simp [isWordPart, Char.isAlphanum, hdigit]
  have hword := run_word (c := 'K') rfl hparts hd h
  rw [← keyVariable_eq] at hword
  rw [hword, keyVariable_eq, keyName, keyVariable_eq]
  rfl

/-! ## Tokens -/

/-- The tokens of a lookup after its binary. -/
def defaultTokens : List Token :=
  [.mark .comma, .variable "Doc", .mark .comma, .atom "null", .mark .closeParen]

/-- The tokens before the binary of a lookup. -/
def lookupTokens : List Token :=
  [.atom "proplists", .mark .colon, .atom "get_value", .mark .openParen]

/-- The tokens of a variable, the lookup it is bound to and the comma after it. -/
def bindingTokens (b : String × String) : List Token :=
  .variable b.1 :: .mark .equal :: (lookupTokens ++ (binaryTokens b.2.toList ++
    (defaultTokens ++ [.mark .comma])))

/-- The tokens of variables after the first one, and of the bracket after them. -/
def moreTokens : List String → List Token
  | [] => [.mark .closeBracket]
  | x :: xs => .mark .comma :: .variable x :: moreTokens xs

/-- The tokens of variables and of the bracket after them. -/
def listTokens : List String → List Token
  | [] => [.mark .closeBracket]
  | x :: xs => .variable x :: moreTokens xs

/-- The tokens of a key. -/
def keyTokens : Option Key → List Token
  | none => binaryTokens []
  | some (.single _) => [.variable "Key"]
  | some (.composite ps) => .mark .openBracket :: listTokens (ps.mapIdx fun i _ => keyName i)

theorem run_lookup (p : String) : Mode.ready.run (" = proplists:get_value(".toList ++
    binary p.toList ++ ", Doc, null)".toList ++ ",\n".toList) =
      some ((bindingTokens ("", p)).tail, .ready) := by
  have hopen : Mode.ready.run " = proplists:get_value(".toList =
      some (.mark .equal :: lookupTokens, .ready) := by decide
  have hdefault : Mode.ready.run ", Doc, null)".toList = some (defaultTokens, .ready) := by decide
  have hcomma : Mode.ready.run ",\n".toList = some ([.mark .comma], .ready) := by decide
  have h := Mode.run_then (Mode.run_then (Mode.run_then hopen (run_binary p.toList)) hdefault) hcomma
  rw [h]
  simp [bindingTokens]

theorem run_bindingLine {bound : List Char} {x : String} (p : String)
    (h : ∀ {cs : List Char} {out : List Token} {m : Mode},
      Mode.ready.run (' ' :: cs) = some (out, m) →
        Mode.ready.run (bound ++ ' ' :: cs) = some (.variable x :: out, m)) :
    Mode.ready.run (bindingLine (binding bound p)) = some (bindingTokens (x, p), .ready) := by
  have hindent : Mode.ready.run "            ".toList = some ([], .ready) := by decide
  have htext : bindingLine (binding bound p) = "            ".toList ++ (bound ++
      (" = proplists:get_value(".toList ++ binary p.toList ++ ", Doc, null)".toList ++
        ",\n".toList)) := by
    unfold bindingLine binding
    simp only [List.append_assoc]
  have hline : ∀ cs, " = proplists:get_value(".toList ++ cs =
      ' ' :: ("= proplists:get_value(".toList ++ cs) := fun _ => rfl
  have hlookup := run_lookup p
  simp only [List.append_assoc] at hlookup htext
  rw [hline] at hlookup htext
  rw [htext]
  exact Mode.run_then hindent (h hlookup)

theorem run_bindingLines (i : Nat) (ps : List String) :
    Mode.ready.run (bindingLines i ps) =
      some ((ps.mapIdx fun j p => (keyName (i + j), p)).flatMap bindingTokens, .ready) := by
  induction ps generalizing i with
  | nil => rfl
  | cons p ps ih =>
    have hline := run_bindingLine p (run_keyVariable i rfl)
    have hrest := ih (i + 1)
    simp only [Nat.add_right_comm i 1] at hrest
    rw [bindingLines, Mode.run_then hline hrest, List.mapIdx_cons, List.flatMap_cons]
    rfl

theorem run_bindings (k : Option Key) :
    Mode.ready.run (key k).1 = some ((bindings k).flatMap bindingTokens, .ready) := by
  match k with
  | none => rfl
  | some (.single p) =>
    have hline := @run_bindingLine "Key".toList "Key" p
      (fun h => run_word (c := 'K') (w := ['e', 'y']) rfl (List.all_eq_true.mp (by decide)) rfl h)
    simpa [key, bindings] using hline
  | some (.composite ps) =>
    have hlines := run_bindingLines 0 ps
    simp only [Nat.zero_add] at hlines
    exact hlines

/-- The text after a key. -/
def ending : List Char := ", 1);\n        _ ->\n            ok\n    end\nend.".toList

/-- The tokens after a key, but for the full stop. -/
def endTokens : List Token :=
  [.mark .comma, .integer 1, .mark .closeParen, .mark .semicolon, .variable "_", .mark .arrow,
    .atom "ok", .reserved "end", .reserved "end"]

theorem run_ending : Mode.ready.run ending = some (endTokens, .dot) := by decide

theorem ending_eq : ending = ',' :: " 1);\n        _ ->\n            ok\n    end\nend.".toList := by
  decide

/-- variables after the first one, up to the end of the text -/
theorem run_moreVariables (i : Nat) (ps : List String) :
    ∃ d cs, moreVariables i ps ++ ']' :: ending = d :: cs ∧ isWordPart d = false ∧
      Mode.ready.run (d :: cs) =
        some (moreTokens (ps.mapIdx fun j _ => keyName (i + j)) ++ endTokens, .dot) := by
  induction ps generalizing i with
  | nil =>
    refine ⟨']', ending, rfl, rfl, ?_⟩
    exact Mode.run_cons (m := .ready) rfl run_ending
  | cons p ps ih =>
    obtain ⟨d, cs, htext, hd, hrun⟩ := ih (i + 1)
    have hvariable := run_keyVariable i hd hrun
    rw [← htext] at hvariable
    have hblank : Mode.ready.run [',', ' '] = some ([.mark .comma], .ready) := rfl
    refine ⟨',', ' ' :: (keyVariable i ++ (moreVariables (i + 1) ps ++ ']' :: ending)), ?_, rfl, ?_⟩
    · simp [moreVariables]
    · have hall := Mode.run_then hblank hvariable
      simp only [Nat.add_right_comm i 1] at hall
      rw [List.mapIdx_cons]
      exact hall

theorem run_key (k : Option Key) :
    Mode.ready.run ((key k).2 ++ ending) = some (keyTokens k ++ endTokens, .dot) := by
  match k with
  | none => exact Mode.run_then (run_binary []) run_ending
  | some (.single p) =>
    have hrun := run_ending
    rw [ending_eq] at hrun
    have hword := run_word (c := 'K') (w := ['e', 'y']) rfl (List.all_eq_true.mp (by decide)) rfl
      hrun
    rw [← ending_eq] at hword
    exact hword
  | some (.composite []) =>
    have hopen : Mode.ready.run ['[', ']'] =
        some ([.mark .openBracket, .mark .closeBracket], .ready) :=
      rfl
    exact Mode.run_then hopen run_ending
  | some (.composite (p :: ps)) =>
    obtain ⟨d, cs, htext, hd, hrun⟩ := run_moreVariables 1 ps
    have hvariable := run_keyVariable 0 hd hrun
    rw [← htext] at hvariable
    have hall := Mode.run_cons (m := .ready) (c := '[') rfl hvariable
    have hkey : (key (some (.composite (p :: ps)))).2 ++ ending =
        '[' :: (keyVariable 0 ++ (moreVariables 1 ps ++ ']' :: ending)) := by
      simp [key, boundNames]
    rw [hkey, hall, keyTokens, List.mapIdx_cons]
    simp only [Nat.add_comm 1]
    rfl

/-- The tokens of a function up to the class. -/
def headTokens : List Token :=
  [.reserved "fun", .mark .openParen, .mark .openBrace, .variable "Doc", .mark .closeBrace,
    .mark .closeParen, .mark .arrow, .reserved "case"] ++ (lookupTokens ++
      (binaryTokens "ruby_class".toList ++
        [.mark .comma, .variable "Doc", .mark .closeParen, .reserved "of"]))

/-- The tokens of a generated function. -/
def sourceTokens (className : String) (k : Option Key) : List Token :=
  headTokens ++ (binaryTokens className.toList ++ (.mark .arrow ::
    ((bindings k).flatMap bindingTokens ++ (.variable "Emit" :: .mark .openParen ::
      (keyTokens k ++ endTokens)))))

theorem scan_frame (className : String) (k : Option Key) :
    scan? (frame (binary className.toList) (key k).1 (key k).2) =
      some (sourceTokens className k ++ [.stop]) := by
  have hhead : Mode.ready.run "fun(\x7bDoc\x7d) ->\n    case proplists:get_value(".toList =
      some ([.reserved "fun", .mark .openParen, .mark .openBrace, .variable "Doc",
        .mark .closeBrace, .mark .closeParen, .mark .arrow, .reserved "case"] ++ lookupTokens,
        .ready) := by decide
  have hof : Mode.ready.run ", Doc) of\n        ".toList =
      some ([.mark .comma, .variable "Doc", .mark .closeParen, .reserved "of"], .ready) := by decide
  have harrow : Mode.ready.run " ->\n".toList = some ([.mark .arrow], .ready) := by decide
  have hemit : Mode.ready.run "            Emit(".toList =
      some ([.variable "Emit", .mark .openParen], .ready) := by decide
  have hrun := Mode.run_then hhead (Mode.run_then (run_binary "ruby_class".toList)
    (Mode.run_then hof (Mode.run_then (run_binary className.toList) (Mode.run_then harrow
      (Mode.run_then (run_bindings k) (Mode.run_then hemit (run_key k)))))))
  have htext : frame (binary className.toList) (key k).1 (key k).2 =
      "fun(\x7bDoc\x7d) ->\n    case proplists:get_value(".toList ++
        (binary "ruby_class".toList ++ (", Doc) of\n        ".toList ++ (binary className.toList ++
          (" ->\n".toList ++ ((key k).1 ++ ("            Emit(".toList ++ ((key k).2 ++ ending)))))))
      := by
    unfold frame ending
    simp only [List.append_assoc]
  rw [scan?, htext, hrun]
  simp [Mode.finish?, sourceTokens, headTokens]

/-! ## The tree -/

/-- A call of the lookup in a property list. -/
def getValue (arguments : List Expr) : Expr :=
  .call (.remote (.atom "proplists") (.atom "get_value")) arguments

/-- The lookup of a property with null for a missing one. -/
def lookup (p : String) : Expr := getValue [.binary (utf8 p), .variable "Doc", .atom "null"]

/-- The lookup of the class. -/
def classOf : Expr := getValue [.binary (utf8 "ruby_class"), .variable "Doc"]

/-- The key of a row: the empty binary, the variable of the property, or the list of the variables of
all properties. -/
def keyOf : Option Key → Expr
  | none => .binary []
  | some (.single _) => .variable "Key"
  | some (.composite ps) => .list ((ps.mapIdx fun i _ => keyName i).map .variable)

/-- What is done for a document of the class: each variable of the key is bound to its property, and
a row is emitted. -/
def bodyOf (k : Option Key) : List Expr :=
  (bindings k).map (fun b => .bind (.variable b.1) (lookup b.2)) ++
    [.call (.variable "Emit") [keyOf k, .integer 1]]

/-- A function of the pattern `{Doc}` with a case on the class: one clause for the documents of the
class and one for all others. -/
def functionOf (className : String) (k : Option Key) : Expr :=
  .function [([.tuple [.variable "Doc"]],
    [.cases classOf [(.binary (utf8 className), bodyOf k), (.wildcard, [.atom "ok"])]])]

/-! ## Reading it -/

/-- The marks that go on with no expression. -/
def Closes (m : Mark) : Prop := m ≠ .equal ∧ m ≠ .colon ∧ m ≠ .openParen

instance (m : Mark) : Decidable (Closes m) := inferInstanceAs (Decidable (_ ∧ _))

section
variable {n : Nat} {ts rest : List Token} {e : Expr} {m : Mark}

theorem application_of_primary (h : Parser.primary n ts = some (e, .mark m :: rest))
    (hm : Closes m) : Parser.application (n + 2) ts = some (e, .mark m :: rest) := by
  obtain ⟨-, hcolon, hparen⟩ := hm
  simp only [Parser.application, Parser.qualified, h]
  cases m <;> first | rfl | contradiction

theorem expression_of_application (h : Parser.application n ts = some (e, .mark m :: rest))
    (hm : Closes m) : Parser.expression (n + 1) ts = some (e, .mark m :: rest) := by
  obtain ⟨hequal, -, -⟩ := hm
  simp only [Parser.expression, h]
  cases m <;> first | rfl | contradiction

theorem expression_of_primary (h : Parser.primary n ts = some (e, .mark m :: rest))
    (hm : Closes m) : Parser.expression (n + 3) ts = some (e, .mark m :: rest) :=
  expression_of_application (application_of_primary h hm) hm

end

theorem primary_variable {x : String} (hx : x ≠ "_") (n : Nat) (rest : List Token) :
    Parser.primary (n + 1) (.variable x :: rest) = some (.variable x, rest) := by
  simp only [Parser.primary, if_neg hx]

/-- all variables of a key begin alike -/
theorem head?_bindings {k : Option Key} {b : String × String} (h : b ∈ bindings k) :
    b.1.toList.head? = some 'K' := by
  match k with
  | none => cases h
  | some (.single p) =>
    rw [bindings, List.mem_singleton] at h
    rw [h]
    show "Key".toList.head? = some 'K'
    decide
  | some (.composite ps) =>
    obtain ⟨i, -, rfl⟩ := List.mem_mapIdx.mp h
    rw [keyName, String.toList_ofList, keyVariable_eq]
    rfl

theorem bindings_ne {k : Option Key} {b : String × String} (h : b ∈ bindings k) : b.1 ≠ "_" := by
  intro he
  have hfirst := head?_bindings h
  rw [he] at hfirst
  exact absurd hfirst (by decide)

section
variable {n : Nat} {close : Mark} {ts ts' rest : List Token} {e e' : Expr} {es : List Expr}

theorem items_first (hts : ts.head? ≠ some (.mark close))
    (he : Parser.expression n ts = some (e, ts'))
    (hmore : Parser.moreItems n close e ts' = some (es, rest)) :
    Parser.items (n + 1) close ts = some (es, rest) := by
  simp only [Parser.items, if_neg hts, he]
  exact hmore

theorem moreItems_next (he : Parser.expression n ts = some (e', ts'))
    (hmore : Parser.moreItems n close e' ts' = some (es, rest)) :
    Parser.moreItems (n + 1) close e (.mark .comma :: ts) = some (e :: es, rest) := by
  simp only [Parser.moreItems, he]
  show (Parser.moreItems n close e' ts' >>= fun r => some (e :: r.1, r.2)) = _
  rw [hmore]
  rfl

theorem application_getValue (h : Parser.items (n + 2) .closeParen ts = some (es, rest)) :
    Parser.application (n + 3) (lookupTokens ++ ts) = some (getValue es, rest) := by
  show (Parser.items (n + 2) .closeParen ts >>= fun r => some (getValue r.1, r.2)) = _
  rw [h]
  rfl

theorem expression_bind {x : String} (hx : x ≠ "_")
    (h : Parser.expression (n + 3) ts = some (e, rest)) :
    Parser.expression (n + 4) (.variable x :: .mark .equal :: ts) =
      some (.bind (.variable x) e, rest) := by
  have hprimary := primary_variable hx n (.mark .equal :: ts)
  have happlication : Parser.application (n + 3) (.variable x :: .mark .equal :: ts) =
      some (.variable x, .mark .equal :: ts) := by
    simp only [Parser.application, Parser.qualified, hprimary]
    rfl
  simp only [Parser.expression, happlication]
  show (Parser.expression (n + 3) ts >>= fun r => some (Expr.bind (.variable x) r.1, r.2)) = _
  rw [h]
  rfl

end

theorem expression_binary (n : Nat) (s : String) {m : Mark} (hm : Closes m) (rest : List Token) :
    Parser.expression (n + 4) (binaryTokens s.toList ++ .mark m :: rest) =
      some (.binary (utf8 s), .mark m :: rest) :=
  expression_of_primary (primary_binary n s (.mark m :: rest)) hm

theorem head?_binaryTokens (cs : List Char) (rest : List Token) :
    (binaryTokens cs ++ rest).head? = some (.mark .openBinary) := rfl

theorem closes_comma : Closes .comma := by decide

theorem expression_lookup (n : Nat) (p : String) (rest : List Token) :
    Parser.expression (n + 11) (lookupTokens ++ (binaryTokens p.toList ++
      (defaultTokens ++ .mark .comma :: rest))) = some (lookup p, .mark .comma :: rest) := by
  have harguments : Parser.items (n + 9) .closeParen (binaryTokens p.toList ++
      (defaultTokens ++ .mark .comma :: rest)) =
        some ([.binary (utf8 p), .variable "Doc", .atom "null"], .mark .comma :: rest) := by
    refine items_first (by rw [head?_binaryTokens]; decide)
      (expression_binary (n + 4) p closes_comma _) ?_
    rfl
  exact expression_of_application (application_getValue harguments) closes_comma

theorem expression_binding (n : Nat) {b : String × String} (hb : b.1 ≠ "_") (rest : List Token) :
    Parser.expression (n + 12) (bindingTokens b ++ rest) =
      some (.bind (.variable b.1) (lookup b.2), .mark .comma :: rest) := by
  have hlookup := expression_bind hb (expression_lookup n b.2 rest)
  simp only [bindingTokens, List.cons_append, List.append_assoc, List.nil_append]
  exact hlookup

/-- bindings one after the other, and what follows them -/
theorem body_bindings {n : Nat} {ts rest : List Token} {e : Expr} {bs : List (String × String)}
    (hbs : ∀ b ∈ bs, b.1 ≠ "_")
    (h : ∀ k, Parser.expression (n + k + 12) ts = some (e, .mark .semicolon :: rest)) :
    Parser.body (n + bs.length + 13) (bs.flatMap bindingTokens ++ ts) =
      some (bs.map (fun b => .bind (.variable b.1) (lookup b.2)) ++ [e],
        .mark .semicolon :: rest) := by
  induction bs with
  | nil =>
    have hlast := h 0
    simp only [List.flatMap_nil, List.nil_append, List.length_nil, Parser.body, hlast]
    rfl
  | cons b bs ih =>
    rw [List.forall_mem_cons] at hbs
    have hfirst := expression_binding (n + bs.length + 1) hbs.1 (bs.flatMap bindingTokens ++ ts)
    have hrest := ih hbs.2
    have hsteps : n + (b :: bs).length + 13 = n + bs.length + 1 + 12 + 1 := by
      simp only [List.length_cons]
      omega
    rw [hsteps, List.flatMap_cons, List.append_assoc]
    simp only [Parser.body, hfirst]
    show (Parser.body (n + bs.length + 13) (bs.flatMap bindingTokens ++ ts) >>= fun r =>
      some (Expr.bind (.variable b.1) (lookup b.2) :: r.1, r.2)) = _
    rw [hrest]
    rfl

/-! ## Keys -/

theorem expression_variable {x : String} (hx : x ≠ "_") (n : Nat) {m : Mark} (hm : Closes m)
    (rest : List Token) :
    Parser.expression (n + 4) (.variable x :: .mark m :: rest) =
      some (.variable x, .mark m :: rest) :=
  expression_of_primary (primary_variable hx n (.mark m :: rest)) hm

theorem moreTokens_head (xs : List String) (rest : List Token) :
    ∃ m after, moreTokens xs ++ rest = .mark m :: after ∧ Closes m := by
  cases xs with
  | nil => exact ⟨.closeBracket, rest, rfl, by decide⟩
  | cons x xs => exact ⟨.comma, .variable x :: (moreTokens xs ++ rest), rfl, closes_comma⟩

theorem expression_listed {x : String} (hx : x ≠ "_") (n : Nat) (xs : List String)
    (rest : List Token) :
    Parser.expression (n + 4) (.variable x :: (moreTokens xs ++ rest)) =
      some (.variable x, moreTokens xs ++ rest) := by
  obtain ⟨m, after, hmore, hm⟩ := moreTokens_head xs rest
  rw [hmore]
  exact expression_variable hx n hm after

theorem moreItems_variables (n : Nat) {xs : List String} (hxs : ∀ x ∈ xs, x ≠ "_") (e : Expr)
    (rest : List Token) :
    Parser.moreItems (n + xs.length + 4) .closeBracket e (moreTokens xs ++ rest) =
      some (e :: xs.map .variable, rest) := by
  induction xs generalizing e with
  | nil => rfl
  | cons x xs ih =>
    rw [List.forall_mem_cons] at hxs
    exact moreItems_next (expression_listed hxs.1 (n + xs.length) xs rest) (ih hxs.2 (.variable x))

theorem items_variables (n : Nat) {xs : List String} (hxs : ∀ x ∈ xs, x ≠ "_") (rest : List Token) :
    Parser.items (n + xs.length + 4) .closeBracket (listTokens xs ++ rest) =
      some (xs.map .variable, rest) := by
  cases xs with
  | nil => rfl
  | cons x xs =>
    rw [List.forall_mem_cons] at hxs
    exact items_first (by simp [listTokens]) (expression_listed hxs.1 (n + xs.length) xs rest)
      (moreItems_variables n hxs.2 (.variable x) rest)

/-- How many variables a key has. -/
def keySize (k : Option Key) : Nat := (bindings k).length

theorem expression_key (n : Nat) (k : Option Key) (rest : List Token) :
    Parser.expression (n + keySize k + 8) (keyTokens k ++ .mark .comma :: rest) =
      some (keyOf k, .mark .comma :: rest) := by
  match k with
  | none => exact expression_binary (n + 4) "" closes_comma rest
  | some (.single p) => exact expression_variable (x := "Key") (by decide) (n + 5) closes_comma rest
  | some (.composite ps) =>
    have hnames : ∀ x ∈ ps.mapIdx fun i _ => keyName i, x ≠ "_" := by
      intro x hx
      obtain ⟨i, hi, rfl⟩ := List.mem_mapIdx.mp hx
      have hb : (keyName i, ps[i]) ∈ bindings (some (.composite ps)) :=
        List.mem_mapIdx.mpr ⟨i, hi, rfl⟩
      exact bindings_ne hb
    have hsize : keySize (some (.composite ps)) = (ps.mapIdx fun i _ => keyName i).length := by
      simp [keySize, bindings]
    have hlist := items_variables n hnames (.mark .comma :: rest)
    have hprimary : Parser.primary (n + (ps.mapIdx fun i _ => keyName i).length + 5)
        (.mark .openBracket :: (listTokens (ps.mapIdx fun i _ => keyName i) ++ .mark .comma :: rest)) =
          some (keyOf (some (.composite ps)), .mark .comma :: rest) := by
      simp only [Parser.primary, hlist, Option.map_some, keyOf]
    rw [hsize]
    exact expression_of_primary hprimary closes_comma

theorem expression_emit (n : Nat) (k : Option Key) (rest : List Token) :
    Parser.expression (n + keySize k + 12) (.variable "Emit" :: .mark .openParen ::
      (keyTokens k ++
        .mark .comma :: .integer 1 :: .mark .closeParen :: .mark .semicolon :: rest)) =
        some (.call (.variable "Emit") [keyOf k, .integer 1], .mark .semicolon :: rest) := by
  have hhead : (keyTokens k ++ .mark .comma :: .integer 1 :: .mark .closeParen ::
      .mark .semicolon :: rest).head? ≠ some (.mark .closeParen) := by
    match k with
    | none => exact fun h => nomatch h
    | some (.single p) => exact fun h => nomatch h
    | some (.composite ps) => exact fun h => nomatch h
  have harguments := items_first hhead (expression_key (n + 1) k _)
    (show Parser.moreItems (n + 1 + keySize k + 8) .closeParen (keyOf k) _ =
      some ([keyOf k, .integer 1], .mark .semicolon :: rest) from rfl)
  have hsteps : n + keySize k + 12 = n + 1 + keySize k + 8 + 1 + 1 + 1 := by omega
  have hcall : Parser.application (n + 1 + keySize k + 8 + 1 + 1) (.variable "Emit" ::
      .mark .openParen :: (keyTokens k ++ .mark .comma :: .integer 1 :: .mark .closeParen ::
        .mark .semicolon :: rest)) =
          some (.call (.variable "Emit") [keyOf k, .integer 1], .mark .semicolon :: rest) := by
    show (Parser.items (n + 1 + keySize k + 8 + 1) .closeParen _ >>= fun r =>
      some (Expr.call (.variable "Emit") r.1, r.2)) = _
    rw [harguments]
    rfl
  rw [hsteps]
  exact expression_of_application hcall (by decide)

/-! ## The function -/

/-- The tokens after the call that emits. -/
def otherTokens : List Token :=
  [.variable "_", .mark .arrow, .atom "ok", .reserved "end", .reserved "end"]

theorem clauses_source (n : Nat) (className : String) (k : Option Key) (rest : List Token) :
    Parser.clauses (n + keySize k + keySize k + 14) (binaryTokens className.toList ++ .mark .arrow ::
      ((bindings k).flatMap bindingTokens ++ (.variable "Emit" :: .mark .openParen ::
        (keyTokens k ++ .mark .comma :: .integer 1 :: .mark .closeParen :: .mark .semicolon ::
          (otherTokens ++ rest))))) =
      some ([(.binary (utf8 className), bodyOf k), (.wildcard, [.atom "ok"])],
        .reserved "end" :: .reserved "end" :: rest) := by
  have hpattern := expression_binary (n + keySize k + keySize k + 9) className (m := .arrow)
    (by decide) ((bindings k).flatMap bindingTokens ++ (.variable "Emit" :: .mark .openParen ::
      (keyTokens k ++ .mark .comma :: .integer 1 :: .mark .closeParen :: .mark .semicolon ::
        (otherTokens ++ rest))))
  have hemit : ∀ j, Parser.expression (n + keySize k + j + 12) (.variable "Emit" ::
      .mark .openParen :: (keyTokens k ++ .mark .comma :: .integer 1 :: .mark .closeParen ::
        .mark .semicolon :: (otherTokens ++ rest))) =
          some (.call (.variable "Emit") [keyOf k, .integer 1],
            .mark .semicolon :: (otherTokens ++ rest)) := by
    intro j
    rw [show n + keySize k + j + 12 = n + j + keySize k + 12 by omega]
    exact expression_emit (n + j) k (otherTokens ++ rest)
  have hbody := body_bindings (fun b (hb : b ∈ bindings k) => bindings_ne hb) hemit
  have hother : Parser.clauses (n + keySize k + keySize k + 13) (otherTokens ++ rest) =
      some ([(.wildcard, [.atom "ok"])], .reserved "end" :: .reserved "end" :: rest) := rfl
  rw [Parser.clauses, hpattern]
  show (Parser.body (n + keySize k + (bindings k).length + 13) _ >>= fun r => _) = _
  rw [hbody]
  show (Parser.clauses (n + keySize k + keySize k + 13) (otherTokens ++ rest) >>= fun r =>
    some ((Expr.binary (utf8 className), bodyOf k) :: r.1, r.2)) = _
  rw [hother]
  rfl

theorem expression_class (n : Nat) (rest : List Token) :
    Parser.expression (n + 11) (lookupTokens ++ (binaryTokens "ruby_class".toList ++
      .mark .comma :: .variable "Doc" :: .mark .closeParen :: .reserved "of" :: rest)) =
        some (classOf, .reserved "of" :: rest) := by
  have harguments : Parser.items (n + 9) .closeParen (binaryTokens "ruby_class".toList ++
      .mark .comma :: .variable "Doc" :: .mark .closeParen :: .reserved "of" :: rest) =
        some ([.binary (utf8 "ruby_class"), .variable "Doc"], .reserved "of" :: rest) := by
    refine items_first (by rw [head?_binaryTokens]; decide)
      (expression_binary (n + 4) "ruby_class" closes_comma _) ?_
    rfl
  have happlication := application_getValue harguments
  simp only [Parser.expression, happlication]
  rfl

section
variable {n : Nat} {ts rest : List Token} {cs : List (Expr × List Expr)}

theorem expression_case (h : Parser.clauses (n + 11) ts = some (cs, .reserved "end" :: rest))
    (hrest : ∀ m after, rest ≠ .mark m :: after) :
    Parser.expression (n + 15) (.reserved "case" :: (lookupTokens ++
      (binaryTokens "ruby_class".toList ++ .mark .comma :: .variable "Doc" :: .mark .closeParen ::
        .reserved "of" :: ts))) = some (.cases classOf cs, rest) := by
  have hprimary : Parser.primary (n + 12) (.reserved "case" :: (lookupTokens ++
      (binaryTokens "ruby_class".toList ++ .mark .comma :: .variable "Doc" :: .mark .closeParen ::
        .reserved "of" :: ts))) = some (.cases classOf cs, rest) := by
    show (Parser.expression (n + 11) _ >>= fun r => _) = _
    rw [expression_class]
    show (Parser.clauses (n + 11) ts >>= fun r => _) = _
    rw [h]
    rfl
  simp only [Parser.expression, Parser.application, Parser.qualified, hprimary]
  match rest, hrest with
  | [], _ => rfl
  | .mark m :: after, hrest => exact absurd rfl (hrest m after)
  | .variable _ :: _, _ => rfl
  | .atom _ :: _, _ => rfl
  | .reserved _ :: _, _ => rfl
  | .integer _ :: _, _ => rfl
  | .text _ :: _, _ => rfl
  | .stop :: _, _ => rfl

end

theorem expression_function {n : Nat} {ts : List Token} {e : Expr}
    (h : Parser.expression (n + 9) ts = some (e, [.reserved "end", .stop])) :
    Parser.expression (n + 15) (.reserved "fun" :: .mark .openParen :: .mark .openBrace ::
      .variable "Doc" :: .mark .closeBrace :: .mark .closeParen :: .mark .arrow :: ts) =
        some (.function [([.tuple [.variable "Doc"]], [e])], [.stop]) := by
  have hbody : Parser.body (n + 10) ts = some ([e], [.reserved "end", .stop]) := by
    simp only [Parser.body, h]
    rfl
  have hprimary : Parser.primary (n + 12) (.reserved "fun" :: .mark .openParen ::
      .mark .openBrace :: .variable "Doc" :: .mark .closeBrace :: .mark .closeParen ::
        .mark .arrow :: ts) = some (.function [([.tuple [.variable "Doc"]], [e])], [.stop]) := by
    have hclauses : Parser.functionClauses (n + 11) (.mark .openParen :: .mark .openBrace ::
        .variable "Doc" :: .mark .closeBrace :: .mark .closeParen :: .mark .arrow :: ts) =
          some ([([.tuple [.variable "Doc"]], [e])], [.reserved "end", .stop]) := by
      show (Parser.body (n + 10) ts >>= fun r => _) = _
      rw [hbody]
      rfl
    simp only [Parser.primary, hclauses]
    rfl
  simp only [Parser.expression, Parser.application, Parser.qualified, hprimary]
  rfl

theorem length_bindings_le (k : Option Key) :
    keySize k ≤ ((bindings k).flatMap bindingTokens).length := by
  unfold keySize
  induction bindings k with
  | nil => exact Nat.le_refl _
  | cons b bs ih =>
    simp only [List.flatMap_cons, List.length_append, List.length_cons, bindingTokens]
    omega

/-- the text of a generated function is read as its tree -/
theorem read_frame (className : String) (k : Option Key) :
    Expr.read? (frame (binary className.toList) (key k).1 (key k).2) =
      some (functionOf className k) := by
  have hlength : ∃ x, 8 * ((sourceTokens className k ++ [Token.stop]).length + 1) =
      x + keySize k + keySize k + 24 := by
    have hle := length_bindings_le k
    refine ⟨8 * ((sourceTokens className k ++ [Token.stop]).length + 1) -
      (keySize k + keySize k + 24), ?_⟩
    simp only [sourceTokens, headTokens, List.length_append, List.length_cons, List.length_nil]
    omega
  obtain ⟨x, hx⟩ := hlength
  have hclauses := clauses_source x className k [.stop]
  have hcase := expression_case (n := x + keySize k + keySize k + 3) hclauses
    (fun _ _ h => nomatch h)
  have hfunction := expression_function hcase
  have htokens : sourceTokens className k ++ [.stop] = .reserved "fun" :: .mark .openParen ::
      .mark .openBrace :: .variable "Doc" :: .mark .closeBrace :: .mark .closeParen ::
        .mark .arrow :: .reserved "case" :: (lookupTokens ++ (binaryTokens "ruby_class".toList ++
          .mark .comma :: .variable "Doc" :: .mark .closeParen :: .reserved "of" ::
            (binaryTokens className.toList ++ .mark .arrow :: ((bindings k).flatMap bindingTokens ++
              (.variable "Emit" :: .mark .openParen :: (keyTokens k ++ .mark .comma ::
                .integer 1 :: .mark .closeParen :: .mark .semicolon ::
                  (otherTokens ++ [.stop]))))))) := by
    simp [sourceTokens, headTokens, endTokens, otherTokens]
  refine Expr.read?_of_tokens (scan_frame className k) ?_
  rw [hx, htokens]
  exact hfunction

theorem names_bindings (ps : List String) :
    (bindings (some (.composite ps))).map Prod.fst = (List.range ps.length).map keyName := by
  apply List.ext_getElem?
  intro i
  by_cases hi : i < ps.length <;> simp [bindings, hi]

/-- no variable of a key is bound twice -/
theorem nodup_bindings (k : Option Key) : ((bindings k).map Prod.fst).Nodup := by
  match k with
  | none => exact .nil
  | some (.single p) => simp [bindings]
  | some (.composite ps) =>
    rw [names_bindings, List.Nodup, List.pairwise_map]
    exact List.nodup_range.imp fun h he => h (keyName_injective he)

/-- **Names cannot change the structure of a map function.**  Without conditions and with the default
value a text is generated for every class and key, and up to its full stop, after which nothing
follows, it is read as one function: each property is bound to a variable of its own, in order, and
the variables make the key. -/
theorem source_reads (className : String) {o : ViewOptions} (hconditions : o.conditions = none)
    (hvalue : o.emitValue = .default) :
    (∃ text, source className o = .ok text ∧
      Expr.read? text = some (functionOf className o.key)) ∧
        ((bindings o.key).map Prod.fst).Nodup := by
  refine ⟨⟨frame (binary className.toList) (key o.key).1 (key o.key).2, ?_, ?_⟩, ?_⟩
  · rw [source, hconditions, hvalue]
    rfl
  · exact read_frame className o.key
  · exact nodup_bindings o.key

/-- quotes, backslashes and letters beyond ASCII, the same property twice -/
theorem source_reads_odd_names :
    ∃ text, source "O\"Brien\\é" { key := some (.composite ["\"", "ß\n", "\""]) } = .ok text ∧
      Expr.read? text = some (.function [([.tuple [.variable "Doc"]],
        [.cases classOf [(.binary (utf8 "O\"Brien\\é"),
            [.bind (.variable "Key_0") (lookup "\""), .bind (.variable "Key_1") (lookup "ß\n"),
              .bind (.variable "Key_2") (lookup "\""),
              .call (.variable "Emit") [.list [.variable "Key_0", .variable "Key_1",
                .variable "Key_2"], .integer 1]]),
          (.wildcard, [.atom "ok"])]])]) := by
  have h := (source_reads "O\"Brien\\é" (o := { key := some (.composite ["\"", "ß\n", "\""]) })
    rfl rfl).1
  have hnames : keyName 0 = "Key_0" ∧ keyName 1 = "Key_1" ∧ keyName 2 = "Key_2" := by
    decide +kernel
  rw [← hnames.1, ← hnames.2.1, ← hnames.2.2]
  exact h

end ViewDesign.MapFunction.Erlang
