import ViewDesign.Script.Parser

/-!
# Readers and the tokens after what they read

What a reader reads from some tokens it also reads when more tokens come after them, and when it
may nest more steps.  The tokens that come after must not go on with an expression; a closing
parenthesis and a semicolon never do.  A statement may end where the tokens end, so for statements
something has to be left over before the new tokens come.

* `Stops`            tokens that go on with no expression;
* `Carried`          a result is carried over to longer tokens;
* `Firm`             a reader whose results are carried over;
* `Readers`          all readers are firm with some number of steps; `readers` is the induction;
* `expression_grow`, `assignment_grow`   what the other modules use.
-/

namespace ViewDesign.Script.Parser

/-! ## Results that are carried over -/

/-- Nothing, or tokens whose first one ends an expression. -/
def Stops : List Lexeme → Prop
  | [] => True
  | t :: _ => t.token = .mark .closeParen ∨ t.token = .mark .semicolon

theorem Stops.cases {ext : List Lexeme} (h : Stops ext) :
    ext = [] ∨ (∃ newLine rest, ext = ⟨.mark .closeParen, newLine⟩ :: rest) ∨
      ∃ newLine rest, ext = ⟨.mark .semicolon, newLine⟩ :: rest := by
  match ext, h with
  | [], _ => exact .inl rfl
  | ⟨_, newLine⟩ :: rest, .inl rfl => exact .inr (.inl ⟨newLine, rest, rfl⟩)
  | ⟨_, newLine⟩ :: rest, .inr rfl => exact .inr (.inr ⟨newLine, rest, rfl⟩)

theorem Stops.head {ts ext rest : List Lexeme} {t : Lexeme} (h : Stops ext)
    (heq : ts ++ ext = t :: rest) (ht : t.token ≠ .mark .closeParen ∧ t.token ≠ .mark .semicolon) :
    ∃ r, ts = t :: r ∧ rest = r ++ ext := by
  cases ts with
  | nil =>
    subst heq
    obtain h | h := h
    · exact absurd h ht.1
    · exact absurd h ht.2
  | cons u us =>
    cases heq
    exact ⟨us, rfl, rfl⟩

section
variable {α β : Type} {ok : List Lexeme → Prop} {ext : List Lexeme}

/-- What is read with an acceptable rest is also read with more tokens after that rest. -/
def Carried (ok : List Lexeme → Prop) (ext : List Lexeme) (a b : Option (α × List Lexeme)) : Prop :=
  ∀ x rest, a = some (x, rest) → ok rest → b = some (x, rest ++ ext)

/-- Any rest will do. -/
def anyRest : List Lexeme → Prop := fun _ => True

/-- Something is left over. -/
def someRest : List Lexeme → Prop := fun rest => rest ≠ []

theorem Carried.refuse {b : Option (α × List Lexeme)} : Carried ok ext none b :=
  fun _ _ h => nomatch h

theorem Carried.done (x : α) (rest : List Lexeme) :
    Carried ok ext (some (x, rest)) (some (x, rest ++ ext)) := by
  rintro _ _ h -
  cases h
  rfl

theorem Carried.bind {a b : Option (β × List Lexeme)}
    {f g : β × List Lexeme → Option (α × List Lexeme)}
    (h : Carried anyRest ext a b)
    (hfg : ∀ x rest, Carried ok ext (f (x, rest)) (g (x, rest ++ ext))) :
    Carried ok ext (a >>= f) (b >>= g) := by
  intro y rest hy hok
  obtain ⟨⟨x, mid⟩, ha, hf⟩ := Option.bind_eq_some_iff.mp hy
  exact Option.bind_eq_some_iff.mpr ⟨_, h x mid ha trivial, hfg x mid y rest hf hok⟩

/-- a statement is followed by something, or nothing acceptable is left in the end -/
theorem Carried.bind_some {a b : Option (β × List Lexeme)}
    {f g : β × List Lexeme → Option (α × List Lexeme)} (h : Carried someRest ext a b)
    (hfg : ∀ x rest, Carried ok ext (f (x, rest)) (g (x, rest ++ ext)))
    (hempty : ∀ x y rest, f (x, []) = some (y, rest) → ¬ ok rest) :
    Carried ok ext (a >>= f) (b >>= g) := by
  intro y rest hy hok
  obtain ⟨⟨x, mid⟩, ha, hf⟩ := Option.bind_eq_some_iff.mp hy
  have hmid : mid ≠ [] := by
    rintro rfl
    exact hempty x y rest hf hok
  exact Option.bind_eq_some_iff.mpr ⟨_, h x mid ha hmid, hfg x mid y rest hf hok⟩

theorem Carried.triple {γ : Type} {a b : Option (β × γ × List Lexeme)}
    {f g : β × γ × List Lexeme → Option (α × List Lexeme)}
    (h : ∀ x y rest, a = some (x, y, rest) → b = some (x, y, rest ++ ext))
    (hfg : ∀ x y rest, Carried ok ext (f (x, y, rest)) (g (x, y, rest ++ ext))) :
    Carried ok ext (a >>= f) (b >>= g) := by
  intro z rest hz hok
  obtain ⟨⟨x, y, mid⟩, ha, hf⟩ := Option.bind_eq_some_iff.mp hz
  exact Option.bind_eq_some_iff.mpr ⟨_, h x y mid ha, hfg x y mid z rest hf hok⟩

theorem Carried.option {o : Option β} {f g : β → Option (α × List Lexeme)}
    (hfg : ∀ x, Carried ok ext (f x) (g x)) : Carried ok ext (o >>= f) (o >>= g) := by
  intro y rest hy hok
  obtain ⟨x, ho, hf⟩ := Option.bind_eq_some_iff.mp hy
  exact Option.bind_eq_some_iff.mpr ⟨x, ho, hfg x y rest hf hok⟩

/-! ## Readers that do not nest -/

theorem expect?_append {m : Mark} {ts rest : List Lexeme} (h : expect? m ts = some rest) :
    expect? m (ts ++ ext) = some (rest ++ ext) := by
  match ts, h with
  | ⟨.mark m', _⟩ :: ts, h =>
    simp only [expect?, List.cons_append] at h ⊢
    split at h
    · cases h
      rw [if_pos ‹_›]
    · cases h

theorem Carried.expect {m : Mark} {ts : List Lexeme}
    {f g : List Lexeme → Option (α × List Lexeme)}
    (hfg : ∀ rest, Carried ok ext (f rest) (g (rest ++ ext))) :
    Carried ok ext (expect? m ts >>= f) (expect? m (ts ++ ext) >>= g) := by
  intro y rest hy hok
  obtain ⟨mid, ha, hf⟩ := Option.bind_eq_some_iff.mp hy
  exact Option.bind_eq_some_iff.mpr ⟨_, expect?_append ha, hfg mid y rest hf hok⟩

theorem ending?_append {ts rest : List Lexeme} (h : ending? ts = some rest) (hts : ts ≠ []) :
    ending? (ts ++ ext) = some (rest ++ ext) := by
  match ts, hts with
  | t :: ts, _ =>
    simp only [ending?, List.cons_append] at h ⊢
    split at h
    · cases h; rfl
    · cases h; rfl
    · split at h
      · cases h
        rw [if_pos ‹_›]
        rfl
      · cases h

theorem ending?_append_none {ts : List Lexeme} (h : ending? ts = none) :
    ending? (ts ++ ext) = none := by
  match ts with
  | [] => cases h
  | t :: ts =>
    simp only [ending?, List.cons_append] at h ⊢
    split at h
    · cases h
    · cases h
    · split at h
      · cases h
      · rw [if_neg ‹_›]

theorem Carried.ending {ts : List Lexeme} {x : α} :
    Carried someRest ext (ending? ts >>= fun rest => some (x, rest))
      (ending? (ts ++ ext) >>= fun rest => some (x, rest)) := by
  intro y rest hy hok
  obtain ⟨mid, ha, hf⟩ := Option.bind_eq_some_iff.mp hy
  cases hf
  have hts : ts ≠ [] := by
    rintro rfl
    cases ha
    exact hok rfl
  exact Option.bind_eq_some_iff.mpr ⟨_, ending?_append ha hts, rfl⟩

theorem parameters_append {ts rest : List Lexeme} {xs : List String}
    (h : parameters ts = some (xs, rest)) : parameters (ts ++ ext) = some (xs, rest ++ ext) := by
  fun_induction parameters ts generalizing xs with
  | case1 newLine ts =>
    cases h
    rfl
  | case2 w newLine newLine' ts =>
    obtain ⟨x, hx, hs⟩ := Option.bind_eq_some_iff.mp h
    cases hs
    simp [parameters, hx]
  | case3 w newLine newLine' ts ih =>
    obtain ⟨x, hx, hs⟩ := Option.bind_eq_some_iff.mp h
    obtain ⟨⟨ys, mid⟩, hys, hs⟩ := Option.bind_eq_some_iff.mp hs
    cases hs
    simp [parameters, hx, ih hys]
  | case4 => cases h

end

/-! ## Nothing is read where nothing starts -/

/-- No expression starts here. -/
structure NoStart (ts : List Lexeme) : Prop where
  primary : ∀ n, primary n ts = none
  unary : ∀ n, unary (n + 1) ts = counted n ts

/-- a reader that begins with one that refuses, refuses -/
theorem refused {α β : Type} {r : Option α} {next : α → Option β} (h : r = none) :
    (r >>= next) = none := by
  rw [h]
  rfl

namespace NoStart

variable {ts : List Lexeme}

theorem suffixed (h : NoStart ts) (n : Nat) : Parser.suffixed n ts = none := by
  cases n with
  | zero => rfl
  | succ n => exact refused (h.primary n)

theorem counted (h : NoStart ts) (n : Nat) : Parser.counted n ts = none := by
  cases n with
  | zero => rfl
  | succ n => exact refused (h.suffixed n)

theorem binary (h : NoStart ts) (n level : Nat) : Parser.binary n level ts = none := by
  match n with
  | 0 => rfl
  | 1 => rfl
  | n + 2 => exact refused ((h.unary n).trans (h.counted n))

theorem conditional (h : NoStart ts) (n : Nat) : Parser.conditional n ts = none := by
  cases n with
  | zero => rfl
  | succ n => exact refused (h.binary n 0)

theorem assignment (h : NoStart ts) (n : Nat) : Parser.assignment n ts = none := by
  cases n with
  | zero => rfl
  | succ n => exact refused (h.conditional n)

theorem expression (h : NoStart ts) (n : Nat) : Parser.expression n ts = none := by
  cases n with
  | zero => rfl
  | succ n => exact refused (h.assignment n)

end NoStart

theorem noStart_nil : NoStart [] where
  primary n := by cases n <;> rfl
  unary n := rfl

theorem noStart_closeParen (newLine : Bool) (ts : List Lexeme) :
    NoStart (⟨.mark .closeParen, newLine⟩ :: ts) where
  primary n := by cases n <;> rfl
  unary n := rfl

theorem assignment_nil (n : Nat) : assignment n [] = none := noStart_nil.assignment n

theorem expression_nil (n : Nat) : expression n [] = none := noStart_nil.expression n

theorem statement_nil (n : Nat) : statement n [] = none := by
  cases n with
  | zero => rfl
  | succ n => exact refused (expression_nil n)

theorem body_nil (n : Nat) : body n [] = none := by
  cases n with
  | zero => rfl
  | succ n => exact refused (statement_nil n)

/-! ## What the second token decides -/

theorem primary_function {n : Nat} {newLine : Bool} {ts : List Lexeme}
    (h : ∀ w newLine rest, ts = ⟨.word w, newLine⟩ :: rest → False) :
    primary (n + 1) (⟨.word "function", newLine⟩ :: ts) = (do
      let (ps, b, rest) ← function n ts
      return (.function none ps b, rest)) := by
  simp only [primary]

theorem primary_word {n : Nat} {w : String} {newLine : Bool} {ts : List Lexeme}
    (h : w = "function" → False) :
    primary (n + 1) (⟨.word w, newLine⟩ :: ts) = (do return (← ofWord? w, ts)) := by
  simp only [primary]
  split <;> simp_all

theorem members_word {n : Nat} {w : String} {newLine : Bool} {ts : List Lexeme}
    (h : ∀ newLine rest, ts = ⟨.mark .colon, newLine⟩ :: rest → False) :
    members (n + 1) (⟨.word w, newLine⟩ :: ts) = (do
      let x ← shorthand? w
      moreMembers n (x, .name x) ts) := by
  simp only [members]

theorem declarations_word {n : Nat} {w : String} {newLine : Bool} {ts : List Lexeme}
    (h : ∀ newLine rest, ts = ⟨.mark .assign, newLine⟩ :: rest → False) :
    declarations (n + 1) (⟨.word w, newLine⟩ :: ts) = (do
      let x ← name? w
      moreDeclarations n (.declare x) ts) := by
  simp only [declarations]

theorem statement_return {n : Nat} {newLine : Bool} {ts : List Lexeme} :
    statement (n + 1) (⟨.word "return", newLine⟩ :: ts) = match ending? ts with
      | some rest => some (.result .absent, rest)
      | none => do
        let (e, ts) ← expression n ts
        return (.result e, ← ending? ts) := by
  rewrite [statement]
  rfl

theorem statement_expression {n : Nat} {t : Lexeme} {ts : List Lexeme}
    (hbrace : t.token ≠ .mark .openBrace) (hsemicolon : t.token ≠ .mark .semicolon)
    (hword : ∀ w ∈ ["var", "function", "if", "for", "return"], t.token ≠ .word w) :
    statement (n + 1) (t :: ts) = (do
      let (e, ts) ← expression n (t :: ts)
      return (.expression e, ← ending? ts)) := by
  simp only [List.forall_mem_cons] at hword
  obtain ⟨hvar, hfunction, hif, hfor, hreturn, -⟩ := hword
  have hhead : ∀ {u : Lexeme} {us : List Lexeme}, t :: ts = u :: us → t.token = u.token := by
    rintro _ _ heq
    cases heq
    rfl
  simp only [statement]
  split
  · exact absurd (hhead ‹_›) hbrace
  · exact absurd (hhead ‹_›) hsemicolon
  · exact absurd (hhead ‹_›) hvar
  · exact absurd (hhead ‹_›) hfunction
  · exact absurd (hhead ‹_›) hfunction
  · exact absurd (hhead ‹_›) hif
  · exact absurd (hhead ‹_›) hfor
  · exact absurd (hhead ‹_›) hreturn
  · rfl

/-! ## Readers that nest -/

/-- What a reader reads in some steps it also reads in more steps and before more tokens. -/
def Firm {α : Type} (ok : List Lexeme → Prop) (n : Nat)
    (r : Nat → List Lexeme → Option (α × List Lexeme)) : Prop :=
  ∀ {m : Nat} (ts : List Lexeme) {ext : List Lexeme}, n ≤ m → Stops ext →
    Carried ok ext (r n ts) (r m (ts ++ ext))

theorem Firm.zero {α : Type} {ok : List Lexeme → Prop}
    {r : Nat → List Lexeme → Option (α × List Lexeme)} (h : ∀ ts, r 0 ts = none) : Firm ok 0 r := by
  intro m ts ext _ _
  rw [h]
  exact .refuse

theorem Firm.succ {α : Type} {ok : List Lexeme → Prop} {n : Nat}
    {r : Nat → List Lexeme → Option (α × List Lexeme)}
    (h : ∀ {m : Nat} (ts : List Lexeme) {ext : List Lexeme}, n ≤ m → Stops ext →
      Carried ok ext (r (n + 1) ts) (r (m + 1) (ts ++ ext))) : Firm ok (n + 1) r := by
  intro m ts ext hm hext
  cases m with
  | zero => exact absurd hm (Nat.not_succ_le_zero n)
  | succ m => exact h ts (Nat.le_of_succ_le_succ hm) hext

/-- All readers with some number of steps. -/
structure Readers (n : Nat) : Prop where
  expression : Firm anyRest n expression
  moreExpressions : ∀ e, Firm anyRest n (moreExpressions · e)
  assignment : Firm anyRest n assignment
  conditional : Firm anyRest n conditional
  binary : ∀ level, Firm anyRest n (binary · level)
  moreBinary : ∀ level left, Firm anyRest n (moreBinary · level left)
  unary : Firm anyRest n unary
  counted : Firm anyRest n counted
  suffixed : Firm anyRest n suffixed
  suffixes : ∀ e, Firm anyRest n (suffixes · e)
  primary : Firm anyRest n primary
  arguments : Firm anyRest n arguments
  elements : Firm anyRest n elements
  members : Firm anyRest n members
  memberValue : ∀ name, Firm anyRest n (memberValue · name)
  moreMembers : ∀ entry, Firm anyRest n (moreMembers · entry)
  function : ∀ {m : Nat} (ts : List Lexeme) {ext : List Lexeme}, n ≤ m → Stops ext →
    ∀ ps b rest, function n ts = some (ps, b, rest) →
      function m (ts ++ ext) = some (ps, b, rest ++ ext)
  body : Firm anyRest n body
  declarations : Firm anyRest n declarations
  moreDeclarations : ∀ first, Firm anyRest n (moreDeclarations · first)
  loopStart : Firm anyRest n loopStart
  optional : ∀ k e, Firm anyRest n (optional · k e)
  statement : Firm someRest n statement

namespace Readers

variable {n m : Nat} {ts ext : List Lexeme}

theorem expression_succ (h : Readers n) : Firm anyRest (n + 1) Parser.expression := by
  apply Firm.succ
  intro m ts ext hm hext
  exact .bind (h.assignment ts hm hext) fun e rest => h.moreExpressions e rest hm hext

theorem moreExpressions_succ (h : Readers n) (e : Expr) :
    Firm anyRest (n + 1) (Parser.moreExpressions · e) := by
  apply Firm.succ
  intro m ts ext hm hext
  simp only [Parser.moreExpressions]
  split
  · exact .bind (h.assignment _ hm hext) fun next rest => h.moreExpressions _ rest hm hext
  · split
    · rename_i heq
      obtain ⟨r, rfl, -⟩ := hext.head heq (by simp)
      simp_all
    · exact .done _ _

theorem assignment_succ (h : Readers n) : Firm anyRest (n + 1) Parser.assignment := by
  apply Firm.succ
  intro m ts ext hm hext
  refine .bind (h.conditional ts hm hext) fun e rest => ?_
  dsimp only
  split
  · rename_i k newLine after
    simp only [List.cons_append]
    cases assignment? k with
    | some make =>
      exact .option fun target => .bind (h.assignment _ hm hext) fun value rest => .done _ _
    | none => exact .done _ _
  · cases rest with
    | nil => obtain rfl | ⟨_, _, rfl⟩ | ⟨_, _, rfl⟩ := hext.cases <;> exact .done _ _
    | cons t after =>
      obtain ⟨token, newLine⟩ := t
      cases token with
      | mark k => simp_all
      | _ => exact .done _ _

theorem conditional_succ (h : Readers n) : Firm anyRest (n + 1) Parser.conditional := by
  apply Firm.succ
  intro m ts ext hm hext
  refine .bind (h.binary 0 ts hm hext) fun test rest => ?_
  dsimp only
  split
  · refine .bind (h.assignment _ hm hext) fun yes rest => ?_
    exact .expect fun rest => .bind (h.assignment _ hm hext) fun no rest => .done _ _
  · split
    · rename_i heq
      obtain ⟨r, rfl, -⟩ := hext.head heq (by simp)
      simp_all
    · exact .done _ _

theorem binary_succ (h : Readers n) (level : Nat) :
    Firm anyRest (n + 1) (Parser.binary · level) := by
  apply Firm.succ
  intro m ts ext hm hext
  exact .bind (h.unary ts hm hext) fun left rest => h.moreBinary level left rest hm hext

theorem moreBinary_succ (h : Readers n) (level : Nat) (left : Expr) :
    Firm anyRest (n + 1) (Parser.moreBinary · level left) := by
  apply Firm.succ
  intro m ts ext hm hext
  simp only [Parser.moreBinary]
  split
  · rename_i k newLine after
    simp only [List.cons_append]
    cases binary? k with
    | some operator =>
      obtain ⟨strength, make⟩ := operator
      dsimp only
      split
      · exact .bind (h.binary _ _ hm hext) fun right rest => h.moreBinary _ _ rest hm hext
      · exact .done _ _
    | none => exact .done _ _
  · cases ts with
    | nil => obtain rfl | ⟨_, _, rfl⟩ | ⟨_, _, rfl⟩ := hext.cases <;> exact .done _ _
    | cons t after =>
      obtain ⟨token, newLine⟩ := t
      cases token with
      | mark k => simp_all
      | _ => exact .done _ _

theorem unary_succ (h : Readers n) : Firm anyRest (n + 1) Parser.unary := by
  apply Firm.succ
  intro m ts ext hm hext
  simp only [Parser.unary]
  split
  · exact .bind (h.unary _ hm hext) fun e rest => .done _ _
  · exact .bind (h.unary _ hm hext) fun e rest => .done _ _
  · exact .bind (h.unary _ hm hext) fun e rest => .done _ _
  · exact .bind (h.unary _ hm hext) fun e rest => .done _ _
  · exact .bind (h.unary _ hm hext) fun e rest => .option fun target => .done _ _
  · exact .bind (h.unary _ hm hext) fun e rest => .option fun target => .done _ _
  · split
    -- an operator in front of the longer tokens is in front of the shorter ones
    all_goals try
      rename_i heq
      obtain ⟨r, rfl, -⟩ := hext.head heq (by simp)
      simp_all
    exact h.counted ts hm hext

theorem counted_succ (h : Readers n) : Firm anyRest (n + 1) Parser.counted := by
  apply Firm.succ
  intro m ts ext hm hext
  refine .bind (h.suffixed ts hm hext) fun e rest => ?_
  dsimp only
  split
  · exact .option fun target => .done _ _
  · exact .option fun target => .done _ _
  · split
    all_goals try
      rename_i heq
      obtain ⟨r, rfl, -⟩ := hext.head heq (by simp)
      simp_all
    exact .done _ _

theorem suffixed_succ (h : Readers n) : Firm anyRest (n + 1) Parser.suffixed := by
  apply Firm.succ
  intro m ts ext hm hext
  exact .bind (h.primary ts hm hext) fun e rest => h.suffixes e rest hm hext

theorem suffixes_succ (h : Readers n) (e : Expr) :
    Firm anyRest (n + 1) (Parser.suffixes · e) := by
  apply Firm.succ
  intro m ts ext hm hext
  simp only [Parser.suffixes]
  split
  · exact h.suffixes _ _ hm hext
  · refine .bind (h.expression _ hm hext) fun key rest => ?_
    exact .expect fun rest => h.suffixes _ rest hm hext
  · exact .bind (h.arguments _ hm hext) fun args rest => h.suffixes _ rest hm hext
  · split
    · rename_i heq
      obtain ⟨r, rfl, hr⟩ := hext.head heq (by simp)
      obtain ⟨r, rfl, -⟩ := hext.head hr.symm (by simp)
      grind
    · rename_i heq
      obtain ⟨r, rfl, -⟩ := hext.head heq (by simp)
      simp_all
    · rename_i heq
      obtain ⟨r, rfl, -⟩ := hext.head heq (by simp)
      simp_all
    · exact .done _ _

theorem primary_succ (h : Readers n) : Firm anyRest (n + 1) Parser.primary := by
  apply Firm.succ
  intro m ts ext hm hext
  generalize hright : Parser.primary (m + 1) (ts ++ ext) = right
  simp only [Parser.primary]
  split <;> subst hright
  · exact .done _ _
  · exact .done _ _
  · exact .option fun name => .triple (h.function _ hm hext) fun ps b rest => .done _ _
  · rename_i newLine after hno
    have hno' : ∀ w newLine rest, after ++ ext = ⟨.word w, newLine⟩ :: rest → False := by
      intro w newLine rest heq
      obtain ⟨r, rfl, -⟩ := Stops.head hext heq (by simp)
      exact hno _ _ _ rfl
    rw [List.cons_append, primary_function hno']
    exact .triple (h.function _ hm hext) fun ps b rest => .done _ _
  · rename_i w newLine after _ hw
    rw [List.cons_append, primary_word hw]
    exact .option fun e => .done _ _
  · refine .bind (h.expression _ hm hext) fun e rest => ?_
    exact .expect fun rest => .done _ _
  · exact .bind (h.elements _ hm hext) fun items rest => .done _ _
  · exact .bind (h.members _ hm hext) fun entries rest => .option fun _ => .done _ _
  · exact .refuse

theorem arguments_succ (h : Readers n) : Firm anyRest (n + 1) Parser.arguments := by
  apply Firm.succ
  intro m ts ext hm hext
  simp only [Parser.arguments]
  split
  · exact .done _ _
  · rename_i hno
    cases ts with
    | nil =>
      rw [assignment_nil]
      exact .refuse
    | cons t ts =>
      split
      · rename_i heq
        cases heq
        simp_all
      refine .bind (h.assignment _ hm hext) fun e rest => ?_
      dsimp only
      split
      · exact .done _ _
      · exact .bind (h.arguments _ hm hext) fun args rest => .done _ _
      · exact .refuse

theorem elements_succ (h : Readers n) : Firm anyRest (n + 1) Parser.elements := by
  apply Firm.succ
  intro m ts ext hm hext
  simp only [Parser.elements]
  split
  · exact .done _ _
  · exact .bind (h.elements _ hm hext) fun items rest => .done _ _
  · split
    · rename_i heq
      obtain ⟨r, rfl, -⟩ := hext.head heq (by simp)
      simp_all
    · rename_i heq
      obtain ⟨r, rfl, -⟩ := hext.head heq (by simp)
      simp_all
    refine .bind (h.assignment _ hm hext) fun e rest => ?_
    dsimp only
    split
    · exact .done _ _
    · exact .bind (h.elements _ hm hext) fun args rest => .done _ _
    · exact .refuse

theorem members_succ (h : Readers n) : Firm anyRest (n + 1) Parser.members := by
  apply Firm.succ
  intro m ts ext hm hext
  generalize hright : Parser.members (m + 1) (ts ++ ext) = right
  simp only [Parser.members]
  split <;> subst hright
  · exact .done _ _
  · exact h.memberValue _ _ hm hext
  · exact h.memberValue _ _ hm hext
  · exact h.memberValue _ _ hm hext
  · rename_i w newLine after hno
    have hno' : ∀ newLine rest, after ++ ext = ⟨.mark .colon, newLine⟩ :: rest → False := by
      intro newLine rest heq
      obtain ⟨r, rfl, -⟩ := Stops.head hext heq (by simp)
      exact hno _ _ rfl
    rw [List.cons_append, members_word hno']
    exact .option fun x => h.moreMembers _ _ hm hext
  · exact .refuse

theorem memberValue_succ (h : Readers n) (name : String) :
    Firm anyRest (n + 1) (Parser.memberValue · name) := by
  apply Firm.succ
  intro m ts ext hm hext
  exact .bind (h.assignment _ hm hext) fun e rest => h.moreMembers _ rest hm hext

theorem moreMembers_succ (h : Readers n) (entry : String × Expr) :
    Firm anyRest (n + 1) (Parser.moreMembers · entry) := by
  apply Firm.succ
  intro m ts ext hm hext
  simp only [Parser.moreMembers]
  split
  · exact .done _ _
  · exact .bind (h.members _ hm hext) fun entries rest => .done _ _
  · exact .refuse

theorem body_succ (h : Readers n) : Firm anyRest (n + 1) Parser.body := by
  apply Firm.succ
  intro m ts ext hm hext
  simp only [Parser.body]
  split
  · exact .done _ _
  · split
    · rename_i heq
      obtain ⟨r, rfl, -⟩ := hext.head heq (by simp)
      simp_all
    refine .bind_some (h.statement _ hm hext) (fun s rest => ?_) fun s y rest hread => ?_
    · exact .bind (h.body _ hm hext) fun statements rest => .done _ _
    · simp [body_nil] at hread

theorem declarations_succ (h : Readers n) : Firm anyRest (n + 1) Parser.declarations := by
  apply Firm.succ
  intro m ts ext hm hext
  generalize hright : Parser.declarations (m + 1) (ts ++ ext) = right
  simp only [Parser.declarations]
  split <;> subst hright
  · refine .option fun x => .bind (h.assignment _ hm hext) fun e rest => ?_
    exact h.moreDeclarations _ rest hm hext
  · rename_i w newLine after hno
    have hno' : ∀ newLine rest, after ++ ext = ⟨.mark .assign, newLine⟩ :: rest → False := by
      intro newLine rest heq
      obtain ⟨r, rfl, -⟩ := Stops.head hext heq (by simp)
      exact hno _ _ rfl
    rw [List.cons_append, declarations_word hno']
    exact .option fun x => h.moreDeclarations _ _ hm hext
  · exact .refuse

theorem moreDeclarations_succ (h : Readers n) (first : Stmt) :
    Firm anyRest (n + 1) (Parser.moreDeclarations · first) := by
  apply Firm.succ
  intro m ts ext hm hext
  simp only [Parser.moreDeclarations]
  split
  · exact .bind (h.declarations _ hm hext) fun declared rest => .done _ _
  · split
    · rename_i heq
      obtain ⟨r, rfl, -⟩ := hext.head heq (by simp)
      simp_all
    · exact .done _ _

theorem function_succ (h : Readers n) (hm : n ≤ m) (hext : Stops ext) (ps : List String)
    (b : List Stmt) (rest : List Lexeme) (hread : Parser.function (n + 1) ts = some (ps, b, rest)) :
    Parser.function (m + 1) (ts ++ ext) = some (ps, b, rest ++ ext) := by
  simp only [Parser.function, Option.bind_eq_bind, Option.bind_eq_some_iff, Option.pure_def,
    Option.some.injEq] at hread ⊢
  obtain ⟨ts1, hparen, ⟨xs, ts2⟩, hparameters, ts3, hbrace, ⟨c, ts4⟩, hbody, hdone⟩ := hread
  cases hdone
  exact ⟨_, expect?_append hparen, _, parameters_append hparameters, _, expect?_append hbrace, _,
    h.body ts3 hm hext _ _ hbody trivial, rfl⟩

theorem loopStart_succ (h : Readers n) : Firm anyRest (n + 1) Parser.loopStart := by
  apply Firm.succ
  intro m ts ext hm hext
  generalize hright : Parser.loopStart (m + 1) (ts ++ ext) = right
  simp only [Parser.loopStart]
  split <;> subst hright
  · exact .done _ _
  · refine .bind (h.declarations _ hm hext) fun declared rest => ?_
    exact .expect fun rest => .done _ _
  · rename_i hsemicolon hvar
    cases ts with
    | nil =>
      rw [expression_nil]
      exact .refuse
    | cons t after =>
      have hright : Parser.loopStart (m + 1) (t :: after ++ ext) = (do
          let (e, ts) ← Parser.expression m (t :: after ++ ext)
          return ([.expression e], ← expect? .semicolon ts)) := by
        simp only [List.cons_append, Parser.loopStart]
        split <;> simp_all
      rw [hright]
      refine .bind (h.expression _ hm hext) fun e rest => ?_
      exact .expect fun rest => .done _ _

theorem optional_succ (h : Readers n) (k : Mark) (e : Expr) :
    Firm anyRest (n + 1) (Parser.optional · k e) := by
  apply Firm.succ
  intro m ts ext hm hext
  simp only [Parser.optional]
  cases hexpect : expect? k ts with
  | some rest =>
    rw [expect?_append hexpect]
    exact .done _ _
  | none =>
    cases ts with
    | nil =>
      dsimp only
      rw [expression_nil]
      exact .refuse
    | cons t after =>
      have hexpect' : expect? k (t :: after ++ ext) = none := by
        obtain ⟨token, newLine⟩ := t
        cases token <;> simp_all [expect?]
      rw [hexpect']
      refine .bind (h.expression _ hm hext) fun e rest => ?_
      exact .expect fun rest => .done _ _

theorem statement_succ (h : Readers n) : Firm someRest (n + 1) Parser.statement := by
  apply Firm.succ
  intro m ts ext hm hext
  generalize hright : Parser.statement (m + 1) (ts ++ ext) = right
  simp only [Parser.statement]
  -- one case for each first word or mark; what follows the tokens is only looked at by the last
  -- reader of each
  split <;> subst hright
  · exact .bind (h.body _ hm hext) fun statements rest => .option fun _ => .done _ _
  · exact .done _ _
  · exact .bind (h.declarations _ hm hext) fun declared rest => .ending
  · exact .option fun name => .triple (h.function _ hm hext) fun ps b rest => .done _ _
  · exact .refuse
  · refine .expect fun rest => .bind (h.expression _ hm hext) fun test rest => ?_
    refine .expect fun rest => ?_
    refine .bind_some (h.statement _ hm hext) (fun yes rest => .option fun _ => ?_)
      fun yes y rest hread => ?_
    · dsimp only
      split
      · refine .bind_some (h.statement _ hm hext) (fun no rest => .option fun _ => .done _ _)
          fun no y rest hread => ?_
        obtain ⟨-, -, hread⟩ := Option.bind_eq_some_iff.mp hread
        cases hread
        exact fun hok => hok rfl
      · split
        · rename_i heq
          obtain ⟨r, rfl, -⟩ := hext.head heq (by simp)
          simp_all
        · exact .done _ _
    · obtain ⟨-, -, hread⟩ := Option.bind_eq_some_iff.mp hread
      cases hread
      exact fun hok => hok rfl
  · refine .expect fun rest => .bind (h.loopStart _ hm hext) fun start rest => ?_
    refine .bind (h.optional _ _ _ hm hext) fun test rest => ?_
    refine .bind (h.optional _ _ _ hm hext) fun step rest => ?_
    refine .bind_some (h.statement _ hm hext) (fun s rest => .option fun _ => .done _ _)
      fun s y rest hread => ?_
    obtain ⟨-, -, hread⟩ := Option.bind_eq_some_iff.mp hread
    cases hread
    exact fun hok => hok rfl
  · rename_i newLine after
    rw [List.cons_append, statement_return]
    cases hend : ending? after with
    | some rest =>
      rintro _ _ hread hok
      cases hread
      have hafter : after ≠ [] := by
        rintro rfl
        cases hend
        exact hok rfl
      rw [ending?_append hend hafter]
    | none =>
      rw [ending?_append_none hend]
      exact .bind (h.expression _ hm hext) fun e rest => .ending
  · rename_i hbrace hsemicolon hvar _ hfunction hif hfor hreturn
    cases ts with
    | nil =>
      rw [expression_nil]
      exact .refuse
    | cons t after =>
      obtain ⟨token, newLine⟩ := t
      rw [List.cons_append, statement_expression]
      rotate_left
      · rintro rfl
        exact hbrace _ _ rfl
      · rintro rfl
        exact hsemicolon _ _ rfl
      · simp only [List.forall_mem_cons]
        refine ⟨?_, ?_, ?_, ?_, ?_, by simp⟩
        · rintro rfl
          exact hvar _ _ rfl
        · rintro rfl
          exact hfunction _ _ rfl
        · rintro rfl
          exact hif _ _ rfl
        · rintro rfl
          exact hfor _ _ rfl
        · rintro rfl
          exact hreturn _ _ rfl
      exact .bind (h.expression _ hm hext) fun e rest => .ending

end Readers

/-- all readers are firm, whatever number of steps they may nest -/
theorem readers (n : Nat) : Readers n := by
  induction n with
  | zero =>
    constructor <;> intros
    all_goals first
      | contradiction
      | apply Firm.zero
        intro ts
        rfl
  | succ n ih =>
    exact {
      expression := ih.expression_succ
      moreExpressions := ih.moreExpressions_succ
      assignment := ih.assignment_succ
      conditional := ih.conditional_succ
      binary := ih.binary_succ
      moreBinary := ih.moreBinary_succ
      unary := ih.unary_succ
      counted := ih.counted_succ
      suffixed := ih.suffixed_succ
      suffixes := ih.suffixes_succ
      primary := ih.primary_succ
      arguments := ih.arguments_succ
      elements := ih.elements_succ
      members := ih.members_succ
      memberValue := ih.memberValue_succ
      moreMembers := ih.moreMembers_succ
      function := by
        intro m ts ext hm hext ps b rest hread
        cases m with
        | zero => exact absurd hm (Nat.not_succ_le_zero n)
        | succ m => exact ih.function_succ (Nat.le_of_succ_le_succ hm) hext ps b rest hread
      body := ih.body_succ
      declarations := ih.declarations_succ
      moreDeclarations := ih.moreDeclarations_succ
      loopStart := ih.loopStart_succ
      optional := ih.optional_succ
      statement := ih.statement_succ }

section
variable {n m : Nat} {ts ext rest : List Lexeme} {e : Expr}

/-- an expression is the same one before more tokens -/
theorem expression_grow (h : expression n ts = some (e, rest)) (hm : n ≤ m) (hext : Stops ext) :
    expression m (ts ++ ext) = some (e, rest ++ ext) :=
  (readers n).expression ts hm hext e rest h trivial

theorem assignment_grow (h : assignment n ts = some (e, rest)) (hm : n ≤ m) (hext : Stops ext) :
    assignment m (ts ++ ext) = some (e, rest ++ ext) :=
  (readers n).assignment ts hm hext e rest h trivial

theorem binary_grow {level : Nat} (h : binary n level ts = some (e, rest)) (hm : n ≤ m)
    (hext : Stops ext) : binary m level (ts ++ ext) = some (e, rest ++ ext) :=
  (readers n).binary level ts hm hext e rest h trivial

end

/-- What was read, if nothing is left over. -/
def whole? {α : Type} : Option (α × List Lexeme) → Option α
  | some (x, []) => some x
  | _ => none

theorem whole?_eq_some {α : Type} {r : Option (α × List Lexeme)} {x : α} (h : whole? r = some x) :
    r = some (x, []) := by
  match r, h with
  | some (_, []), rfl => rfl

end ViewDesign.Script.Parser

namespace ViewDesign.Script.Expr

/-- The expression that a text is on its own, if no comma divides it. -/
def parseSingle? (cs : List Char) : Option Expr := do
  let ts ← Lexeme.scan? cs
  Parser.whole? (Parser.assignment (16 * (ts.length + 1)) ts)

end ViewDesign.Script.Expr
