import ViewDesign.MapFunction.JavaScript
import ViewDesign.Script.Lexing

/-!
# Scanning a text that was put together

The scanner is cut anywhere by `State.run_append`, so the tokens of a text that was put together
are those of its pieces as long as no token runs over a cut.

* `State.run_then`           two pieces;
* `State.run_quote`          a quoted text is one token, whatever the text is;
* `State.run_after`          a text after a mark that it does not make longer;
* `Lexeme.scan?_append`      a text after one that leaves nothing under way;
* `Lexeme.Scanned`           a text on its own: its tokens, and no comment that is still open;
* `Scanned.run_stop`         its tokens before a mark that ends an expression;
* `Scanned.of_silent`, `Scanned.of_scan`   texts that leave no comment open.
-/

namespace ViewDesign.Script

open MapFunction.JavaScript

-- tokens are compared to evaluate the scans of fixed texts
deriving instance DecidableEq for Number, Token, Lexeme

/-- A word that follows on the same line. -/
def word (w : String) : Lexeme := ⟨.word w, false⟩

/-- A mark that follows on the same line. -/
def mark (m : Mark) : Lexeme := ⟨.mark m, false⟩

/-- The token on a new line. -/
def Lexeme.broken (t : Lexeme) : Lexeme := { t with newLine := true }

namespace State

theorem run_then {s s' s'' : State} {as bs : List Char} {out more : List Lexeme}
    (ha : s.run as = some (out, s')) (hb : s'.run bs = some (more, s'')) :
    s.run (as ++ bs) = some (out ++ more, s'') := by
  rw [run_append, ha]
  simp [hb]

theorem run_cons {s s' s'' : State} {c : Char} {cs : List Char} {out more : List Lexeme}
    (hc : s.step c = some (out, s')) (hcs : s'.run cs = some (more, s'')) :
    s.run (c :: cs) = some (out ++ more, s'') := by
  simp [run, hc, hcs]

/-! ## Quoted texts -/

/-- Inside a single-quoted text, after some units. -/
def quoting (units : List Nat) (newLine : Bool) : State := ⟨.text '\'' units .outside, newLine⟩

theorem run_escapeChar (c : Char) (units : List Nat) (newLine : Bool) :
    (quoting units newLine).run (escapeChar c) =
      some ([], quoting ((Units.ofChar c).reverse ++ units) newLine) := by
  unfold escapeChar
  split
  · subst c; rfl
  split
  · subst c; rfl
  split
  · subst c; rfl
  split
  · subst c; rfl
  split
  · subst c; rfl
  split
  · subst c; rfl
  · rename_i hslash hquote hfeed hreturn _ _
    simp [run, step, quoting, textStep, hslash, hquote, hfeed, hreturn]

theorem run_escape (cs : List Char) (units : List Nat) (newLine : Bool) :
    (quoting units newLine).run (escape cs) =
      some ([], quoting ((cs.flatMap Units.ofChar).reverse ++ units) newLine) := by
  induction cs generalizing units with
  | nil => rfl
  | cons c cs ih =>
    have h := run_then (run_escapeChar c units newLine) (ih _)
    simpa [escape] using h

/-- an escaped text and the quote after it are one token, the text itself -/
theorem run_escape_quote (cs : List Char) (newLine : Bool) :
    (quoting [] newLine).run (escape cs ++ ['\'']) =
      some ([⟨.text (String.ofList cs), newLine⟩], ⟨.ready, false⟩) := by
  refine run_then (run_escape cs [] newLine) ?_
  simp [run, step, quoting, Escape.closes, Units.join_flatMap]

theorem run_quote (cs : List Char) (newLine : Bool) :
    (State.mk .ready newLine).run (quote cs) =
      some ([⟨.text (String.ofList cs), newLine⟩], ⟨.ready, false⟩) := by
  have hopen : (State.mk .ready newLine).step '\'' = some ([], quoting [] newLine) := rfl
  exact run_cons hopen (run_escape_quote cs newLine)

/-! ## The ends of a text -/

/-- The marks that end an expression and are no part of a longer mark. -/
def stop? (c : Char) : Option Mark :=
  if c = ')' then some .closeParen else if c = ';' then some .semicolon else none

theorem stop?_cases {c : Char} {k : Mark} (h : stop? c = some k) :
    (c = ')' ∧ k = .closeParen) ∨ (c = ';' ∧ k = .semicolon) := by
  unfold stop? at h
  split at h
  · exact .inl ⟨‹_›, (Option.some.inj h).symm⟩
  split at h
  · exact .inr ⟨‹_›, (Option.some.inj h).symm⟩
  · cases h

theorem extend?_stop {m : Mode} {t : Option Token} {c : Char} {k : Mark} (hc : stop? c = some k)
    (hm : m.token? = some t) : m.extend? c = none := by
  have hpart : isWordPart c = false := by
    obtain ⟨rfl, -⟩ | ⟨rfl, -⟩ := stop?_cases hc <;> rfl
  have hdigit : c.isDigit = false := by
    obtain ⟨rfl, -⟩ | ⟨rfl, -⟩ := stop?_cases hc <;> rfl
  cases m with
  | word chars => simp [Mode.extend?, hpart]
  | numeral chars =>
    have hsign : (c == '+' || c == '-') = false ∧ (c == '.') = false := by
      obtain ⟨rfl, -⟩ | ⟨rfl, -⟩ := stop?_cases hc <;> exact ⟨rfl, rfl⟩
    simp [Mode.extend?, continuesNumeral, hpart, hsign]
  | mark k => obtain ⟨rfl, -⟩ | ⟨rfl, -⟩ := stop?_cases hc <;> cases k <;> rfl
  | dot => simp [Mode.extend?, hdigit]
  | slash => obtain ⟨rfl, -⟩ | ⟨rfl, -⟩ := stop?_cases hc <;> rfl
  | half d => simp [Mode.token?] at hm
  | _ => rfl

theorem begin?_stop {c : Char} {k : Mark} (hc : stop? c = some k) (newLine : Bool) :
    begin? newLine c = some ⟨.mark k, newLine⟩ := by
  obtain ⟨rfl, rfl⟩ | ⟨rfl, rfl⟩ := stop?_cases hc <;> rfl

/-- a stop ends the token under way and is the next one -/
theorem step_stop {s : State} {last : List Lexeme} {newLine : Bool} {c : Char} {k : Mark}
    (hc : stop? c = some k) (hmode : s.mode ≠ .lineComment)
    (hs : s.settle? = some (last, newLine)) : s.step c = some (last, ⟨.mark k, newLine⟩) := by
  obtain ⟨mode, broken⟩ := s
  simp only [settle?, Option.map_eq_some_iff] at hs
  obtain ⟨t, ht, hlast⟩ := hs
  have hextend : mode.extend? c = none := extend?_stop hc ht
  have hsettle : (State.mk mode broken).settle? = some (last, newLine) := by
    simp only [settle?, ht, Option.map_some, hlast]
  have hbegin := begin?_stop hc newLine
  cases mode with
  | text quote units escape => simp [Mode.token?] at ht
  | blockComment star => simp [Mode.token?] at ht
  | lineComment => exact absurd rfl hmode
  | _ => simp [step, hextend, hsettle, hbegin]

theorem begin?_ne_lineComment {newLine : Bool} {c : Char} {s : State}
    (h : begin? newLine c = some s) : s.mode ≠ .lineComment := by
  unfold begin? at h
  split at h
  · cases h; exact Mode.noConfusion
  split at h
  · cases h; exact Mode.noConfusion
  obtain ⟨mode, hmode, rfl⟩ := Option.map_eq_some_iff.mp h
  rintro rfl
  have hmark : (Mark.ofChar? c).map Mode.mark ≠ some .lineComment := by
    simp [Option.map_eq_some_iff]
  grind [Mode.start?]

theorem extend?_lineComment {m : Mode} {c : Char} (h : m.extend? c = some .lineComment) :
    m = .slash ∧ c = '/' := by
  cases m with
  | slash => grind [Mode.extend?]
  | half d => grind [Mode.extend?]
  | _ => simp [Mode.extend?] at h

/-- a line comment is open only where it was open before, or where a second slash opens it -/
theorem step_lineComment {s s' : State} {out : List Lexeme} {c : Char}
    (h : s.step c = some (out, s')) (hmode : s'.mode = .lineComment) :
    (s.mode = .lineComment ∧ isLineBreak c = false) ∨ (s.mode = .slash ∧ c = '/') := by
  obtain ⟨mode, broken⟩ := s
  have hother : (∀ m, mode.extend? c = some m →
      (out, s') = ([], (⟨m, broken⟩ : State)) → mode = .slash ∧ c = '/') := by
    rintro m hm h
    cases h
    cases hmode
    exact extend?_lineComment hm
  -- only two modes lead to a comment: the comment itself, and the first of two slashes
  cases mode with
  | text quote units escape =>
    simp only [step] at h
    split at h
    · cases h; cases hmode
    · obtain ⟨r, -, hr⟩ := Option.map_eq_some_iff.mp h
      cases hr; cases hmode
  | blockComment star =>
    simp only [step, Option.some.injEq, Prod.mk.injEq] at h
    obtain ⟨-, rfl⟩ := h
    split at hmode <;> cases hmode
  | lineComment =>
    simp only [step, Option.some.injEq, Prod.mk.injEq] at h
    obtain ⟨-, rfl⟩ := h
    split at hmode
    · cases hmode
    · rename_i hbreak
      exact .inl ⟨rfl, by simpa using hbreak⟩
  | _ =>
    simp only [step] at h
    split at h
    · rename_i m hm
      exact .inr (hother m hm (Option.some.inj h).symm)
    · simp only [Option.bind_eq_bind, Option.bind_eq_some_iff, Option.pure_def] at h
      obtain ⟨r, -, next, hnext, hs⟩ := h
      cases hs
      exact absurd hmode (begin?_ne_lineComment hnext)

theorem run_snoc {s s' : State} {cs : List Char} {c : Char} {out : List Lexeme}
    (h : s.run (cs ++ [c]) = some (out, s')) :
    ∃ before t last, s.run cs = some (before, t) ∧ t.step c = some (last, s') := by
  simp only [run_append, run, Option.bind_eq_bind, Option.bind_eq_some_iff, Option.pure_def] at h
  obtain ⟨⟨before, t⟩, hcs, r, ⟨⟨last, u⟩, hc, _, hnil, hr⟩, hout⟩ := h
  cases hnil
  cases hr
  cases hout
  exact ⟨before, t, last, hcs, hc⟩

/-- a mark that does not grow is a token, and the text after it is scanned afresh -/
theorem run_after {k : Mark} {cs : List Char} (hk : ∀ c ∈ cs.head?, k.extend? c = none)
    (newLine : Bool) (hcs : cs ≠ []) {out : List Lexeme} {s : State}
    (h : initial.run cs = some (out, s)) :
    (State.mk (.mark k) newLine).run cs = some (⟨.mark k, newLine⟩ :: out, s) := by
  cases cs with
  | nil => exact absurd rfl hcs
  | cons c cs =>
    have hstep : (State.mk (.mark k) newLine).step c =
        (initial.step c).map fun r => (⟨.mark k, newLine⟩ :: r.1, r.2) := by
      have hc : k.extend? c = none := hk c rfl
      cases hbegin : begin? false c <;>
        simp [step, initial, Mode.extend?, hc, settle?, Mode.token?, hbegin]
    simp only [run, Option.bind_eq_bind, Option.bind_eq_some_iff, Option.pure_def] at h
    obtain ⟨⟨first, t⟩, hc, ⟨more, u⟩, hmore, hout⟩ := h
    cases hout
    rw [hc] at hstep
    exact run_cons hstep hmore

/-- Whether a comment is under way. -/
def inComment (s : State) : Bool :=
  match s.mode with
  | .lineComment => true
  | .blockComment _ => true
  | _ => false

/-- Whether no comment is ever under way in a text. -/
def silent (s : State) : List Char → Bool
  | [] => true
  | c :: cs =>
    match s.step c with
    | none => true
    | some (_, s) => !s.inComment && s.silent cs

theorem inComment_of_silent {s s' : State} {cs : List Char} {out : List Lexeme}
    (hs : s.inComment = false) (h : s.silent cs = true) (hrun : s.run cs = some (out, s')) :
    s'.inComment = false := by
  induction cs generalizing s out with
  | nil =>
    cases hrun
    exact hs
  | cons c cs ih =>
    simp only [run, Option.bind_eq_bind, Option.bind_eq_some_iff, Option.pure_def] at hrun
    obtain ⟨⟨first, t⟩, hc, ⟨more, u⟩, hmore, hout⟩ := hrun
    cases hout
    simp only [silent, hc, Bool.and_eq_true, Bool.not_eq_true'] at h
    exact ih h.1 h.2 hmore

end State

/-- a text that leaves nothing under way is scanned on its own -/
theorem Lexeme.scan?_append {as : List Char} {out : List Lexeme}
    (h : State.initial.run as = some (out, .initial)) (bs : List Char) :
    scan? (as ++ bs) = (scan? bs).map (out ++ ·) := by
  rw [scan?, scan?, State.run_append, h]
  simp only [Option.bind_eq_bind, Option.bind_some, Option.pure_def]
  cases State.initial.run bs with
  | none => rfl
  | some r =>
    simp only [Option.bind_some]
    cases r.2.settle? <;> simp

/-! ## A text on its own -/

/-- A text has some tokens, and no line comment is open at its end. -/
def Lexeme.Scanned (cs : List Char) (ts : List Lexeme) : Prop :=
  ∃ out s last newLine, State.initial.run cs = some (out, s) ∧ s.mode ≠ .lineComment ∧
    s.settle? = some (last, newLine) ∧ ts = out ++ last

namespace Lexeme.Scanned

variable {cs : List Char} {ts : List Lexeme}

theorem of_ready {newLine : Bool} (h : State.initial.run cs = some (ts, ⟨.ready, newLine⟩)) :
    Scanned cs ts :=
  ⟨ts, ⟨.ready, newLine⟩, [], newLine, h, Mode.noConfusion, rfl, (List.append_nil ts).symm⟩

theorem of_mark {k : Mark} {newLine : Bool}
    (h : State.initial.run cs = some (ts, ⟨.mark k, newLine⟩)) :
    Scanned cs (ts ++ [⟨.mark k, newLine⟩]) :=
  ⟨ts, ⟨.mark k, newLine⟩, [⟨.mark k, newLine⟩], false, h, Mode.noConfusion, rfl, rfl⟩

theorem scan (h : Scanned cs ts) : scan? cs = some ts := by
  obtain ⟨out, s, last, newLine, hrun, -, hlast, rfl⟩ := h
  simp [scan?, hrun, hlast]

/-- the tokens of a text before a stop -/
theorem run_stop (h : Scanned cs ts) {c : Char} {k : Mark} (hc : State.stop? c = some k) :
    ∃ newLine, State.initial.run (cs ++ [c]) = some (ts, ⟨.mark k, newLine⟩) := by
  obtain ⟨out, s, last, newLine, hrun, hmode, hlast, rfl⟩ := h
  have hstop : s.run [c] = some (last, ⟨.mark k, newLine⟩) := by
    simp [State.run, State.step_stop hc hmode hlast]
  exact ⟨newLine, State.run_then hrun hstop⟩

/-- a text without comments leaves none open -/
theorem of_silent (h : scan? cs = some ts) (hs : State.initial.silent cs = true) :
    Scanned cs ts := by
  simp only [scan?, Option.bind_eq_bind, Option.bind_eq_some_iff, Option.pure_def,
    Option.some.injEq] at h
  obtain ⟨⟨out, s⟩, hrun, ⟨last, newLine⟩, hlast, rfl⟩ := h
  have hopen := State.inComment_of_silent rfl hs hrun
  refine ⟨out, s, last, newLine, hrun, ?_, hlast, rfl⟩
  intro hmode
  simp [State.inComment, hmode] at hopen

/-- a brace on a line of its own leaves no comment open -/
theorem of_scan (h : scan? (cs ++ ['\n', '\x7d']) = some ts) :
    Scanned (cs ++ ['\n', '\x7d']) ts := by
  simp only [scan?, Option.bind_eq_bind, Option.bind_eq_some_iff, Option.pure_def,
    Option.some.injEq] at h
  obtain ⟨⟨out, s⟩, hrun, ⟨last, newLine⟩, hlast, rfl⟩ := h
  refine ⟨out, s, last, newLine, hrun, ?_, hlast, rfl⟩
  intro hmode
  have hsplit : cs ++ ['\n', '\x7d'] = (cs ++ ['\n']) ++ ['\x7d'] := by simp
  rw [hsplit] at hrun
  obtain ⟨before, t, _, hbefore, hbrace⟩ := State.run_snoc hrun
  obtain ⟨ht, -⟩ | ⟨-, hslash⟩ := State.step_lineComment hbrace hmode
  · obtain ⟨_, u, _, -, hfeed⟩ := State.run_snoc hbefore
    obtain ⟨-, hbreak⟩ | ⟨-, hslash⟩ := State.step_lineComment hfeed ht
    · cases hbreak
    · exact absurd hslash (by decide)
  · exact absurd hslash (by decide)

end Lexeme.Scanned

end ViewDesign.Script
