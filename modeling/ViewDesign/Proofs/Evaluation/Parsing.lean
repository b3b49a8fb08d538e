import ViewDesign.Proofs.Evaluation.Program
import ViewDesign.Proofs.Script.Readers
import ViewDesign.Proofs.Script.Scanning

/-!
# The script as statements

The text of the script is scanned piece by piece: the pieces around the documents and the function
have the same tokens in every script, the documents are one quoted text, and the function has the
tokens that it has on its own.  So the statements are those of `program`.

* `headTokens`, `tailTokens`   the tokens before and after the function;
* `scan_source`                the tokens of the script;
* `parse_source`               the statements of the script.
-/

namespace ViewDesign.Evaluation

open Script

/-! ## Tokens -/

/-- The tokens up to the documents. -/
def openingTokens : List Lexeme :=
  [(word "var").broken, word "__docs", mark .assign, word "JSON", mark .dot, word "parse",
    mark .openParen]

/-- The tokens between the documents and the function `emit`. -/
def variableTokens : List Lexeme :=
  [mark .closeParen, mark .semicolon, (word "var").broken, word "__emitted", mark .assign,
    mark .openBracket, mark .closeBracket, mark .semicolon, (word "var").broken, word "__index",
    mark .assign, ⟨.number (.int 0), false⟩, mark .semicolon]

/-- The tokens of the function `emit`, up to the record. -/
def emitTokens : List Lexeme :=
  [(word "function").broken, word "emit", mark .openParen, word "key", mark .comma, word "value",
    mark .closeParen, mark .openBrace, (word "__emitted").broken, mark .dot, word "push",
    mark .openParen, mark .openBrace]

/-- The tokens of a member of the record that is `null` for an argument that is left out. -/
def memberTokens (x : String) : List Lexeme :=
  [(word x).broken, mark .colon, word x, mark .same, word "undefined", mark .question, word "null",
    mark .colon, word x]

/-- The tokens of the record. -/
def recordTokens : List Lexeme :=
  [(word "index").broken, mark .colon, word "__index", mark .comma] ++
    (memberTokens "key" ++ [mark .comma]) ++ memberTokens "value"

/-- The tokens between the record and the map function. -/
def mapTokens : List Lexeme :=
  [(mark .closeBrace).broken, mark .closeParen, mark .semicolon, (mark .closeBrace).broken,
    (word "var").broken, word "__map", mark .assign]

/-- The tokens of the loop, up to its body. -/
def loopTokens : List Lexeme :=
  [(word "for").broken, mark .openParen, word "__index", mark .assign, ⟨.number (.int 0), false⟩,
    mark .semicolon, word "__index", mark .less, word "__docs", mark .dot, word "length",
    mark .semicolon, word "__index", mark .increment, mark .closeParen, mark .openBrace]

/-- The tokens of the body of the loop. -/
def roundTokens : List Lexeme :=
  [(word "__map").broken, mark .openParen, word "__docs", mark .openBracket, word "__index",
    mark .closeBracket, mark .closeParen, mark .semicolon, (mark .closeBrace).broken]

/-- The tokens of the result. -/
def resultTokens : List Lexeme :=
  [(word "JSON").broken, mark .dot, word "stringify", mark .openParen, word "__emitted",
    mark .closeParen]

/-- The tokens before the function. -/
def headTokens (text : String) : List Lexeme :=
  openingTokens ++ (⟨.text text, false⟩ :: variableTokens ++ emitTokens ++ recordTokens ++ mapTokens)

/-- The tokens after the function. -/
def tailTokens : List Lexeme := loopTokens ++ roundTokens ++ resultTokens

/-! ## Scanning -/

/-- Between two lines. -/
def freshLine : Script.State := ⟨.ready, true⟩

theorem run_opening :
    Script.State.initial.run opening = some (openingTokens, Script.State.quoting [] false) := by
  decide

set_option maxRecDepth 1000 in
theorem run_variables : Script.State.initial.run
    ");\n            var __emitted = [];\n            var __index = 0;\n".toList =
      some (variableTokens, freshLine) := by
  decide

set_option maxRecDepth 1000 in
theorem run_emit : freshLine.run
    "            function emit(key, value) \x7b\n                __emitted.push(\x7b\n".toList =
      some (emitTokens, freshLine) := by
  decide

theorem run_index : freshLine.run "                    index: __index,\n".toList =
    some ([(word "index").broken, mark .colon, word "__index", mark .comma], freshLine) := by
  decide

theorem run_key : freshLine.run
    "                    key: key === undefined ? null : key,\n".toList =
      some (memberTokens "key" ++ [mark .comma], freshLine) := by
  decide

theorem run_value : freshLine.run
    "                    value: value === undefined ? null : value\n".toList =
      some (memberTokens "value", freshLine) := by
  decide

theorem run_map : freshLine.run
    "                \x7d);\n            \x7d\n            var __map = ".toList =
      some (mapTokens, .initial) := by
  decide

set_option maxRecDepth 1000 in
theorem run_loop (newLine : Bool) : (Script.State.mk (.mark .semicolon) newLine).run
    "\n            for (__index = 0; __index < __docs.length; __index++) \x7b\n".toList =
      some (⟨.mark .semicolon, newLine⟩ :: loopTokens, freshLine) := by
  cases newLine <;> decide

theorem run_round : freshLine.run
    "                __map(__docs[__index]);\n            \x7d\n".toList =
      some (roundTokens, freshLine) := by
  decide

theorem run_result : freshLine.run "            JSON.stringify(__emitted)\n        ".toList =
    some (resultTokens, freshLine) := by
  decide

/-- the pieces between the documents and the function -/
theorem run_middle (text : List Char) (newLine : Bool) :
    (Script.State.quoting [] newLine).run (MapFunction.JavaScript.escape text ++ middle) =
      some (⟨.text (String.ofList text), newLine⟩ :: variableTokens ++ emitTokens ++ recordTokens ++
        mapTokens, .initial) := by
  have hquote : "');\n            var __emitted = [];\n            var __index = 0;\n".toList =
      ['\''] ++ ");\n            var __emitted = [];\n            var __index = 0;\n".toList := by
    simp
  unfold middle
  rw [String.toList_append, String.toList_append, String.toList_append, String.toList_append,
    String.toList_append, hquote]
  rw [List.append_assoc, List.append_assoc, List.append_assoc, List.append_assoc,
    List.append_assoc, ← List.append_assoc]
  rw [Script.State.run_then (Script.State.run_escape_quote text newLine)
    (Script.State.run_then run_variables (Script.State.run_then run_emit
      (Script.State.run_then run_index (Script.State.run_then run_key
        (Script.State.run_then run_value run_map)))))]
  simp only [recordTokens, List.append_assoc, List.cons_append, List.nil_append]

theorem run_closing (newLine : Bool) :
    ∃ rest, closing = [';'] ++ rest ∧ (Script.State.mk (.mark .semicolon) newLine).run rest =
      some (⟨.mark .semicolon, newLine⟩ :: tailTokens, freshLine) := by
  have hstop : ";\n            for (__index = 0; __index < __docs.length; __index++) \x7b\n".toList =
      [';'] ++
        "\n            for (__index = 0; __index < __docs.length; __index++) \x7b\n".toList := by
    simp
  unfold closing
  rw [String.toList_append, String.toList_append, hstop, List.append_assoc, List.append_assoc]
  refine ⟨_, rfl, ?_⟩
  rw [Script.State.run_then (run_loop newLine) (Script.State.run_then run_round run_result)]
  simp only [tailTokens, List.append_assoc, List.cons_append]

/-- the tokens of the script, around those of the function -/
theorem scan_source {src : List Char} {ts : List Lexeme} (h : Lexeme.Scanned src ts)
    (docs : List Json) :
    ∃ newLine, Lexeme.scan? (source src docs) = some (headTokens (docsText docs) ++
      (ts ++ ⟨.mark .semicolon, newLine⟩ :: tailTokens)) := by
  obtain ⟨newLine, hfunction⟩ := h.run_stop (c := ';') (k := .semicolon) rfl
  obtain ⟨rest, hclosing, hrest⟩ := run_closing newLine
  refine ⟨newLine, ?_⟩
  have hsource : source src docs = opening ++ ((MapFunction.JavaScript.escape
      (Json.compactChars Json.Number.text (.arr docs)) ++ middle) ++ ((src ++ [';']) ++ rest)) := by
    simp only [source, hclosing, List.append_assoc]
  have hrun := Script.State.run_then run_opening (Script.State.run_then
    (run_middle (Json.compactChars Json.Number.text (.arr docs)) false)
    (Script.State.run_then hfunction hrest))
  rw [← hsource] at hrun
  simp [Lexeme.scan?, hrun, freshLine, Script.State.settle?, Mode.token?, headTokens, docsText]

/-! ## Parsing -/

theorem program_cons {n : Nat} {ts rest : List Lexeme} {s : Stmt} (hts : ts ≠ [])
    (h : Parser.statement n ts = some (s, rest)) (hreturns : s.returns = false) :
    Parser.program (n + 1) ts = (Parser.program n rest).map (s :: ·) := by
  cases ts with
  | nil => exact absurd rfl hts
  | cons t ts =>
    have hrequire : Parser.require (!s.returns) = some () := by
      rw [hreturns]
      rfl
    simp only [Parser.program, h, hrequire, Option.bind_eq_bind, Option.bind_some]
    cases Parser.program n rest <;> rfl

theorem program_head (n : Nat) (text : String) (ts : List Lexeme) :
    Parser.program (n + 60) (headTokens text ++ ts) =
      (Parser.program (n + 56) ((word "var").broken :: word "__map" :: mark .assign :: ts)).map
        ([.block [.declareAs "__docs" (.call (.member (.name "JSON") (.text "parse")) [.text text])],
          .block [.declareAs "__emitted" (.array [])],
          .block [.declareAs "__index" (.number (.int 0))],
          .define "emit" emitParameters emitBody] ++ ·) := by
  have hdocs : Parser.statement (n + 59) (headTokens text ++ ts) = some
      (.block [.declareAs "__docs" (.call (.member (.name "JSON") (.text "parse")) [.text text])],
        variableTokens.drop 2 ++ emitTokens ++ recordTokens ++ mapTokens ++ ts) := rfl
  have hemitted : Parser.statement (n + 58) (variableTokens.drop 2 ++ emitTokens ++ recordTokens ++
      mapTokens ++ ts) = some (.block [.declareAs "__emitted" (.array [])],
        variableTokens.drop 8 ++ emitTokens ++ recordTokens ++ mapTokens ++ ts) := rfl
  have hindex : Parser.statement (n + 57) (variableTokens.drop 8 ++ emitTokens ++ recordTokens ++
      mapTokens ++ ts) = some (.block [.declareAs "__index" (.number (.int 0))],
        emitTokens ++ recordTokens ++ mapTokens ++ ts) := rfl
  have hemit : Parser.statement (n + 56) (emitTokens ++ recordTokens ++ mapTokens ++ ts) = some
      (.define "emit" emitParameters emitBody,
        (word "var").broken :: word "__map" :: mark .assign :: ts) := rfl
  rw [program_cons (by simp [headTokens, openingTokens]) hdocs rfl,
    program_cons (by simp [variableTokens]) hemitted rfl,
    program_cons (by simp [variableTokens]) hindex rfl,
    program_cons (by simp [emitTokens]) hemit rfl]
  simp only [Option.map_map]
  rfl

theorem program_tail (n : Nat) : Parser.program (n + 40) tailTokens = some
    [.block ([.expression (.assign (.name "__index") (.number (.int 0)))] ++
        [.loop loopTest loopStep loopBody]),
      .expression (.call (.member (.name "JSON") (.text "stringify")) [.name "__emitted"])] := by
  rfl

theorem statement_map {n m : Nat} {ts tail : List Lexeme} {f : Expr} {newLine : Bool}
    (h : Parser.assignment n ts = some (f, [])) (hm : n ≤ m + 1) :
    Parser.statement (m + 3) ((word "var").broken :: word "__map" :: mark .assign ::
      (ts ++ ⟨.mark .semicolon, newLine⟩ :: tail)) = some (.block [.declareAs "__map" f], tail) := by
  have hstops : Parser.Stops (⟨.mark .semicolon, newLine⟩ :: tail) := .inr rfl
  have hfunction := Parser.assignment_grow h hm hstops
  have hdeclare : Parser.declarations (m + 2) (word "__map" :: mark .assign ::
      (ts ++ ⟨.mark .semicolon, newLine⟩ :: tail)) =
        some ([.declareAs "__map" f], ⟨.mark .semicolon, newLine⟩ :: tail) := by
    show (Parser.assignment (m + 1) (ts ++ ⟨.mark .semicolon, newLine⟩ :: tail) >>= fun r =>
      Parser.moreDeclarations (m + 1) (.declareAs "__map" r.1) r.2) = _
    rw [hfunction]
    rfl
  show (Parser.declarations (m + 2) (word "__map" :: mark .assign ::
    (ts ++ ⟨.mark .semicolon, newLine⟩ :: tail)) >>= fun r =>
      Parser.ending? r.2 >>= fun rest => some (Stmt.block r.1, rest)) = _
  rw [hdeclare]
  rfl

/-- the statements of the script, around a function that is an expression on its own -/
theorem parse_source {src : List Char} {ts : List Lexeme} {f : Expr} (hscan : Lexeme.Scanned src ts)
    (hparse : Parser.assignment (16 * (ts.length + 1)) ts = some (f, [])) (docs : List Json) :
    Stmt.parse? (source src docs) = some (program (docsText docs) f) := by
  obtain ⟨newLine, hsource⟩ := scan_source hscan docs
  have hsteps : ∃ n, 16 * ((headTokens (docsText docs) ++ (ts ++
      ⟨.mark .semicolon, newLine⟩ :: tailTokens)).length + 1) = n + 60 ∧
        16 * (ts.length + 1) ≤ n + 53 := by
    have hhead : (headTokens (docsText docs)).length = 64 := rfl
    refine ⟨16 * ((headTokens (docsText docs) ++ (ts ++
      ⟨.mark .semicolon, newLine⟩ :: tailTokens)).length + 1) - 60, ?_, ?_⟩ <;>
        simp only [List.length_append, List.length_cons, hhead] <;> omega
  obtain ⟨n, hn, hle⟩ := hsteps
  simp only [Stmt.parse?, hsource, Option.bind_eq_bind, Option.bind_some]
  rw [hn, program_head, program_cons (by simp) (statement_map hparse (m := n + 52) hle) rfl,
    show n + 52 + 3 = n + 15 + 40 by omega, program_tail]
  rfl

end ViewDesign.Evaluation
