import ViewDesign.Proofs.Evaluation.Parsing
import ViewDesign.Proofs.MapFunction.Template

/-!
# Quoting is undone by the scanner

A quoted text is a literal that ends with its own last quote, whatever the text is and whatever
follows it.  So nothing in a name or in a document can end the literal that it stands in, and the
script hands the documents on as they were rendered.

* `State.firstToken?`        scans up to the end of a token;
* `textLiteral?`             a text literal at the start of a text;
* `textLiteral?_quote`       a quoted text is read back, and what follows is left;
* `escapedAfter`             a character after some text is escaped there;
* `escapedAfter_of_escape`   every quote of an escaped text is;
* `parse_begins`             what a script does first;
* `quoting_undone`           all of it together.
-/

namespace ViewDesign

/-! ## Literals at the start of a text -/

namespace Script

/-- Scans up to the end of a token: the token, and the text after it. -/
def State.firstToken? (s : State) : List Char → Option (Token × List Char)
  | [] => none
  | c :: cs => do
    let (out, s) ← s.step c
    match out with
    | [] => firstToken? s cs
    | t :: _ => return (t.token, cs)

/-- A text literal in single quotes at the start of a text: what it says, and the text after it. -/
def textLiteral? : List Char → Option (String × List Char)
  | '\'' :: cs =>
    match (State.quoting [] false).firstToken? cs with
    | some (.text s, rest) => some (s, rest)
    | _ => none
  | _ => none

theorem State.firstToken?_append {s s' : State} {as bs : List Char}
    (h : s.run as = some ([], s')) : s.firstToken? (as ++ bs) = s'.firstToken? bs := by
  induction as generalizing s with
  | nil =>
    cases h
    rfl
  | cons c as ih =>
    simp only [run, Option.bind_eq_bind, Option.bind_eq_some_iff, Option.pure_def] at h
    obtain ⟨⟨out, t⟩, hc, ⟨more, t'⟩, hmore, hr⟩ := h
    simp only [Option.some.injEq, Prod.mk.injEq, List.append_eq_nil_iff] at hr
    obtain ⟨⟨rfl, rfl⟩, rfl⟩ := hr
    simp only [List.cons_append, firstToken?, hc, Option.bind_eq_bind, Option.bind_some]
    exact ih hmore

end Script

namespace MapFunction.JavaScript

open Script

/-- a quoted text is read back, and what follows is left -/
theorem textLiteral?_quote (cs t : List Char) :
    textLiteral? (quote cs ++ t) = some (String.ofList cs, t) := by
  have hclose : (State.quoting ((cs.flatMap Units.ofChar).reverse ++ []) false).firstToken?
      ('\'' :: t) = some (.text (String.ofList cs), t) := by
    simp [State.firstToken?, State.step, State.quoting, Escape.closes, Units.join_flatMap]
  rw [quote, List.cons_append, List.append_assoc, List.singleton_append, textLiteral?,
    State.firstToken?_append (State.run_escape cs [] false), hclose]

theorem quote_injective : Function.Injective quote := by
  intro cs ds h
  have hread := textLiteral?_quote cs []
  rw [h, textLiteral?_quote, Option.some.injEq, Prod.mk.injEq] at hread
  have hlist := congrArg String.toList hread.1
  rw [String.toList_ofList, String.toList_ofList] at hlist
  exact hlist.symm

/-! ## Escaped texts -/

/-- Whether a character is escaped where it follows some text: an odd number of backslashes comes
right before it. -/
def escapedAfter (before : List Char) : Bool :=
  (before.reverse.takeWhile (· == '\\')).length % 2 == 1

theorem escapedAfter_slash (before : List Char) :
    escapedAfter (before ++ ['\\']) = !escapedAfter before := by
  have hcount : ((before ++ ['\\']).reverse.takeWhile (· == '\\')).length =
      (before.reverse.takeWhile (· == '\\')).length + 1 := by simp
  rw [escapedAfter, escapedAfter, hcount, Nat.add_mod]
  rcases Nat.mod_two_eq_zero_or_one (before.reverse.takeWhile (· == '\\')).length with h | h <;>
    rw [h] <;> rfl

theorem escapedAfter_other (before : List Char) {c : Char} (hc : c ≠ '\\') :
    escapedAfter (before ++ [c]) = false := by
  simp [escapedAfter, hc]

/-- what a character is written as -/
theorem escapeChar_cases (c : Char) :
    (c = '\\' ∧ escapeChar c = ['\\', '\\']) ∨ (c = '\'' ∧ escapeChar c = ['\\', '\'']) ∨
      (∃ w d, escapeChar c = '\\' :: (w ++ [d]) ∧ ∀ e ∈ w ++ [d], e.isAlphanum = true) ∨
      (c ≠ '\\' ∧ c ≠ '\'' ∧ isLineBreak c = false ∧ escapeChar c = [c]) := by
  unfold escapeChar
  by_cases hslash : c = '\\'
  · exact .inl ⟨hslash, by rw [if_pos hslash]⟩
  rw [if_neg hslash]
  by_cases hquote : c = '\''
  · exact .inr (.inl ⟨hquote, by rw [if_pos hquote]⟩)
  rw [if_neg hquote]
  refine .inr (.inr ?_)
  split_ifs with hfeed hreturn hline hparagraph
  · exact .inl ⟨[], 'n', rfl, List.all_eq_true.mp rfl⟩
  · exact .inl ⟨[], 'r', rfl, List.all_eq_true.mp rfl⟩
  · exact .inl ⟨['u', '2', '0', '2'], '8', rfl, List.all_eq_true.mp rfl⟩
  · exact .inl ⟨['u', '2', '0', '2'], '9', rfl, List.all_eq_true.mp rfl⟩
  · exact .inr ⟨hslash, hquote, by simp [isLineBreak, *], rfl⟩

/-- after a whole character nothing is escaped -/
theorem escapedAfter_escapeChar {before : List Char} (h : escapedAfter before = false) (c : Char) :
    escapedAfter (before ++ escapeChar c) = false := by
  rcases escapeChar_cases c with ⟨-, heq⟩ | ⟨-, heq⟩ | ⟨w, d, heq, hw⟩ | ⟨hslash, -, -, heq⟩
  · have hslashes : before ++ ['\\', '\\'] = (before ++ ['\\']) ++ ['\\'] := by simp
    rw [heq, hslashes, escapedAfter_slash, escapedAfter_slash, h]
    rfl
  · have hlast : before ++ ['\\', '\''] = (before ++ ['\\']) ++ ['\''] := by simp
    rw [heq, hlast, escapedAfter_other _ (by decide)]
  · have hlast : before ++ '\\' :: (w ++ [d]) = (before ++ '\\' :: w) ++ [d] := by simp
    have hd : d ≠ '\\' := by
      rintro rfl
      exact absurd (hw '\\' (by simp)) (by decide)
    rw [heq, hlast, escapedAfter_other _ hd]
  · rw [heq, escapedAfter_other _ hslash]

/-- a quote comes with one backslash before it -/
theorem before_quote {c : Char} {a b : List Char} (h : escapeChar c = a ++ '\'' :: b) :
    a = ['\\'] := by
  have hmem : '\'' ∈ escapeChar c := by simp [h]
  rcases escapeChar_cases c with ⟨-, heq⟩ | ⟨-, heq⟩ | ⟨w, d, heq, hw⟩ | ⟨-, hquote, -, heq⟩
  · rw [heq] at hmem
    exact absurd hmem (by decide)
  · rw [heq] at h
    rcases a with _ | ⟨x, _ | ⟨y, a⟩⟩
    · cases h
    · cases h
      rfl
    · simp at h
  · rw [heq] at hmem
    rcases List.mem_cons.mp hmem with hslash | hmem
    · exact absurd hslash (by decide)
    · exact absurd (hw _ hmem) (by decide)
  · rw [heq, List.mem_singleton] at hmem
    exact absurd hmem.symm hquote

/-- every quote of an escaped text is escaped, after a text that escapes nothing -/
theorem escapedAfter_of_escape {cs before a b : List Char} (hbefore : escapedAfter before = false)
    (h : escape cs = a ++ '\'' :: b) : escapedAfter (before ++ a) = true := by
  induction cs generalizing before a with
  | nil => simp [escape] at h
  | cons c cs ih =>
    have hnext := escapedAfter_escapeChar hbefore c
    rw [escape, List.flatMap_cons] at h
    rcases List.append_eq_append_iff.mp h with ⟨a', rfl, hrest⟩ | ⟨b', hchar, hrest⟩
    · -- the quote is beyond the first character
      rw [← List.append_assoc]
      exact ih hnext hrest
    · cases b' with
      | nil =>
        rw [List.append_nil] at hchar
        subst hchar
        have hquote := ih (a := []) hnext hrest.symm
        rwa [List.append_nil] at hquote
      | cons d b' =>
        obtain ⟨rfl, -⟩ := List.cons_eq_cons.mp hrest
        rw [before_quote hchar, escapedAfter_slash, hbefore]
        rfl

theorem noBreak_of_alphanum {c : Char} (h : c.isAlphanum = true) : isLineBreak c = false := by
  by_contra hbreak
  simp only [isLineBreak, Bool.not_eq_false, Bool.or_eq_true, beq_iff_eq] at hbreak
  rcases hbreak with ((rfl | rfl) | rfl) | rfl <;> exact absurd h (by decide)

theorem noBreak_of_mem_escape {cs : List Char} {c : Char} (h : c ∈ escape cs) :
    isLineBreak c = false := by
  obtain ⟨d, -, hc⟩ := List.mem_flatMap.mp h
  rcases escapeChar_cases d with ⟨-, heq⟩ | ⟨-, heq⟩ | ⟨w, e, heq, hw⟩ | ⟨-, -, hbreak, heq⟩
  · rw [heq] at hc
    rcases List.mem_pair.mp hc with rfl | rfl <;> rfl
  · rw [heq] at hc
    rcases List.mem_pair.mp hc with rfl | rfl <;> rfl
  · rw [heq] at hc
    rcases List.mem_cons.mp hc with rfl | hc
    · rfl
    · exact noBreak_of_alphanum (hw c hc)
  · rw [heq, List.mem_singleton] at hc
    rwa [hc]

end MapFunction.JavaScript

/-! ## The documents of a script -/

namespace Evaluation

open Script

/-- The expression that the documents are read by. -/
def docsOf (text : String) : Expr := .call (.member (.name "JSON") (.text "parse")) [.text text]

/-- whatever the function is, its tokens come after those before it -/
theorem scan_script (f : List Char) (docs : List Json) :
    Lexeme.scan? (source f docs) =
      (Lexeme.scan? (f ++ closing)).map (headTokens (docsText docs) ++ ·) := by
  have hsource : source f docs = (opening ++ (MapFunction.JavaScript.escape
      (Json.compactChars Json.Number.text (.arr docs)) ++ middle)) ++ (f ++ closing) := by
    simp only [source, List.append_assoc]
  rw [hsource, Lexeme.scan?_append (Script.State.run_then run_opening
    (run_middle (Json.compactChars Json.Number.text (.arr docs)) false))]
  rfl

/-- a script begins by reading the documents, whatever its function is -/
theorem parse_begins {f : List Char} {docs : List Json} {body : List Stmt}
    (h : Stmt.parse? (source f docs) = some body) :
    ∃ rest, body = .block [.declareAs "__docs" (docsOf (docsText docs))] :: rest := by
  rw [Stmt.parse?, scan_script] at h
  simp only [Option.bind_eq_bind, Option.bind_eq_some_iff, Option.map_eq_some_iff] at h
  obtain ⟨_, ⟨ts, -, rfl⟩, hbody⟩ := h
  have hhead : (headTokens (docsText docs)).length = 64 := rfl
  obtain ⟨n, hn⟩ : ∃ n, 16 * ((headTokens (docsText docs) ++ ts).length + 1) = n + 60 := by
    refine ⟨16 * ((headTokens (docsText docs) ++ ts).length + 1) - 60, ?_⟩
    rw [List.length_append, hhead]
    omega
  rw [hn, program_head, Option.map_eq_some_iff] at hbody
  obtain ⟨rest, -, rfl⟩ := hbody
  exact ⟨_, rfl⟩

/-- the function that reads the documents, and the text that it is called with -/
theorem eval_docsOf {call : Caller} {scope : Scope} {K : Heap} (text : String) (hK : Untouched K)
    (h : scope.read "JSON" K = .ok (.object Realm.json, K)) :
    ∃ parse, K[parse]? = some (.ofBuiltin "parse" 2 .parse) ∧
      (docsOf text).eval call scope K =
        call (.object Realm.json) (.object parse) [.text text] K := by
  have hown : (Realm.objectAt Realm.json).own? "parse" = some (.value (.object 2)) := by
    rw [Realm.json, Realm.objectAt_succ]
    rfl
  have hparse : Realm.objectAt 2 = .ofBuiltin "parse" 2 .parse := by
    rw [Realm.objectAt_succ]
    rfl
  have hmember : (Value.object Realm.json).getMember "parse" K = .ok (.object 2, K) :=
    getMember_own (hK.get_objectAt (by decide) (by decide +kernel)) hown
  refine ⟨2, hparse ▸ hK.get_objectAt (by decide) (by decide +kernel), ?_⟩
  exact eval_callText h hmember (evalAll_cons (eval_text text) evalAll_nil)

end Evaluation

namespace MapFunction.JavaScript

open Script Evaluation

/-- **Quoting.** A quoted text is scanned as one literal that says the text, and what follows is
left as it is; in an escaped text every quote is escaped and no line ends, and different texts are
quoted differently.  So a script, whatever its function is, begins by calling `JSON.parse` on the
rendering of the documents. -/
theorem quoting_undone :
    (∀ (s : String) (t : List Char), textLiteral? (quote s.toList ++ t) = some (s, t)) ∧
    (∀ s : String, (∀ a b, escape s.toList = a ++ '\'' :: b → escapedAfter a = true) ∧
      ∀ c ∈ escape s.toList, isLineBreak c = false) ∧
    Function.Injective quote ∧
    ∀ (f : List Char) (docs : List Json) (body : List Stmt),
      Stmt.parse? (Evaluation.source f docs) = some body →
        (∃ rest, body = .block [.declareAs "__docs" (docsOf (Json.compact (.arr docs)))] :: rest) ∧
          ∀ (call : Caller) (scope : Scope) (K : Heap), Untouched K →
            scope.read "JSON" K = .ok (.object Realm.json, K) →
              ∃ parse, K[parse]? = some (.ofBuiltin "parse" 2 .parse) ∧
                (docsOf (Json.compact (.arr docs))).eval call scope K =
                  call (.object Realm.json) (.object parse) [.text (Json.compact (.arr docs))]
                    K := by
  refine ⟨fun s t => ?_, fun s => ⟨fun a b h => ?_, fun c => noBreak_of_mem_escape⟩, quote_injective,
    fun f docs body h => ⟨parse_begins h, fun call scope K hK hjson => eval_docsOf _ hK hjson⟩⟩
  · rw [textLiteral?_quote, String.ofList_toList]
  · exact escapedAfter_of_escape (show escapedAfter [] = false from rfl) h

/-- a document with a quote, a backslash and a line break -/
theorem quoting_undone_document :
    ∃ f body e rest parse, source "it's" {} = .ok f ∧
      Stmt.parse? (Evaluation.source f [.str "'\\\n"]) = some body ∧
      body = .block [.declareAs "__docs" e] :: rest ∧
      prepare Scope.globals [Scope.globals] body Realm.heap = .ok ((), initialHeap) ∧
      initialHeap[parse]? = some (.ofBuiltin "parse" 2 .parse) ∧
      e.eval (apply maxDepth) [Scope.globals] initialHeap =
        apply maxDepth (.object Realm.json) (.object parse) [.text "[\"'\\\\\\n\"]"]
          initialHeap := by
  have hfilter : Expr.IsWhole (filter "it's" none) (ofClass "it's") := isWhole_filter "it's" .none
  obtain ⟨ts, hts, hread⟩ := isSingle_frame none hfilter isSingle_one
  have hparse := parse_source hts hread [.str "'\\\n"]
  obtain ⟨⟨rest, hbody⟩, heval⟩ := quoting_undone.2.2.2 _ _ _ hparse
  have htext : Json.compact (.arr [.str "'\\\n"]) = "[\"'\\\\\\n\"]" := by decide +kernel
  have hjson : (Expr.name "JSON").eval (apply maxDepth) [Scope.globals] initialHeap =
      .ok (.object Realm.json, initialHeap) := eval_json get?_initialHeap
  obtain ⟨parse, hparsed, hcall⟩ := heval _ _ _ pristine_initialHeap.untouched hjson
  refine ⟨_, _, _, rest, parse, rfl, hparse, hbody, prepare_run _ _, hparsed, ?_⟩
  rw [← htext]
  exact hcall

end MapFunction.JavaScript

end ViewDesign
