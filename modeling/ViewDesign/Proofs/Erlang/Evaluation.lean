import ViewDesign.Proofs.Erlang.Structure
import ViewDesign.Proofs.View.Indexing

/-!
# What a map function in Erlang emits

An evaluator for the expressions that map functions are made of.  A function gets a document as a
tuple of a property list; the view server binds `Emit`, which takes a key and a value.  A run that
Erlang would end with an exception has no result.

* `Term`, `Term.ofJson`     values, and documents as values;
* `getValue`                the lookup in a property list;
* `Expr.accept?`            a pattern and a value;
* `Expr.eval`               an expression;
* `Expr.emits?`             the rows that a function emits for a document;
* `emits?_functionOf`       those of a generated function.
-/

namespace ViewDesign.Erlang

open MapFunction.Erlang

/-! ## Values -/

/-- A value. -/
inductive Term where
  | atom (name : String)
  | integer (i : Int)
  | float (x : Float)
  | binary (bytes : List UInt8)
  | list (items : List Term)
  | tuple (items : List Term)
  /-- the function that the view server gives to a map function -/
  | emitter
deriving Inhabited

mutual

/-- Whether two values are equal; an integer and a float never are. -/
def Term.same : Term → Term → Bool
  | .atom a, .atom b => a == b
  | .integer i, .integer j => i == j
  | .float x, .float y => x == y
  | .binary bs, .binary cs => bs == cs
  | .list xs, .list ys => sameAll xs ys
  | .tuple xs, .tuple ys => sameAll xs ys
  | .emitter, .emitter => true
  | _, _ => false

/-- Whether values are equal one by one. -/
def Term.sameAll : List Term → List Term → Bool
  | [], [] => true
  | x :: xs, y :: ys => x.same y && sameAll xs ys
  | _, _ => false

end

mutual

/-- A JSON value: texts are binaries of their UTF-8 bytes, objects are tuples of property lists. -/
def Term.ofJson : Json → Term
  | .null => .atom "null"
  | .bool b => .atom (if b then "true" else "false")
  | .num (.int i) => .integer i
  | .num (.float x) => .float x
  | .str s => .binary (utf8 s)
  | .arr items => .list (ofItems items)
  | .obj members => .tuple [.list (ofMembers members)]

/-- The elements of an array. -/
def Term.ofItems : List Json → List Term
  | [] => []
  | v :: rest => ofJson v :: ofItems rest

/-- The members of an object, as pairs. -/
def Term.ofMembers : List (String × Json) → List Term
  | [] => []
  | (k, v) :: rest => .tuple [.binary (utf8 k), ofJson v] :: ofMembers rest

end

/-- The value of a key in a property list: an atom is a key with the value `true`, and an entry of
the key that is no pair ends the search. -/
def getValue (key default : Term) : List Term → Term
  | [] => default
  | .atom a :: rest => if key.same (.atom a) then .atom "true" else getValue key default rest
  | .tuple (k :: vs) :: rest =>
    if key.same k then
      match vs with
      | [v] => v
      | _ => default
    else getValue key default rest
  | _ :: rest => getValue key default rest

/-! ## Patterns -/

/-- Variables and their values. -/
abbrev Env := List (String × Term)

mutual

/-- The variables after a value was matched against a pattern: one that has a value keeps it. -/
def Expr.accept? : Expr → Term → Env → Option Env
  | .wildcard, _, env => some env
  | .variable x, t, env =>
    match env.lookup x with
    | some u => if u.same t then some env else none
    | none => some (env ++ [(x, t)])
  | .atom a, .atom b, env => if a = b then some env else none
  | .integer n, .integer i, env => if (n : Int) = i then some env else none
  | .binary bs, .binary cs, env => if bs = cs then some env else none
  | .list ps, .list ts, env => acceptAll? ps ts env
  | .tuple ps, .tuple ts, env => acceptAll? ps ts env
  | _, _, _ => none

/-- Values matched against patterns one by one. -/
def Expr.acceptAll? : List Expr → List Term → Env → Option Env
  | [], [], env => some env
  | p :: ps, t :: ts, env => do acceptAll? ps ts (← p.accept? t env)
  | _, _, _ => none

end

/-! ## Expressions -/

/-- A state of a run: the variables, and the rows that were emitted. -/
structure State where
  env : Env
  rows : List (Term × Term) := []

/-- A call of a library function.  A key that is missing is `undefined` unless a default is given. -/
def library? : String → String → List Term → Option Term
  | "proplists", "get_value", [key, .list entries] => some (getValue key (.atom "undefined") entries)
  | "proplists", "get_value", [key, .list entries, default] => some (getValue key default entries)
  | _, _, _ => none

/-- A call of a function value. -/
def Term.call? : Term → List Term → State → Option (Term × State)
  | .emitter, [key, value], s => some (.atom "ok", { s with rows := s.rows ++ [(key, value)] })
  | _, _, _ => none

mutual

/-- The value of an expression and the state after it. -/
def Expr.eval : Expr → State → Option (Term × State)
  | .variable x, s => (s.env.lookup x).map fun t => (t, s)
  | .atom a, s => some (.atom a, s)
  | .integer n, s => some (.integer n, s)
  | .binary bytes, s => some (.binary bytes, s)
  | .list items, s => (evalAll items s).map fun r => (.list r.1, r.2)
  | .tuple items, s => (evalAll items s).map fun r => (.tuple r.1, r.2)
  | .bind p e, s => do
    let (t, s) ← e.eval s
    let env ← p.accept? t s.env
    return (t, { s with env })
  | .call (.remote (.atom library) (.atom name)) arguments, s => do
    let (ts, s) ← evalAll arguments s
    return (← library? library name ts, s)
  | .call f arguments, s => do
    let (g, s) ← f.eval s
    let (ts, s) ← evalAll arguments s
    g.call? ts s
  | .cases subject clauses, s => do
    let (t, s) ← subject.eval s
    evalClauses clauses t s
  | .wildcard, _ => none
  | .remote _ _, _ => none
  | .function _, _ => none

/-- Values of expressions from left to right. -/
def Expr.evalAll : List Expr → State → Option (List Term × State)
  | [], s => some ([], s)
  | e :: rest, s => do
    let (t, s) ← e.eval s
    let (ts, s) ← evalAll rest s
    return (t :: ts, s)

/-- The value of the last expression of a body. -/
def Expr.evalBody : List Expr → State → Option (Term × State)
  | [], _ => none
  | [e], s => e.eval s
  | e :: e' :: rest, s => do
    let (_, s) ← e.eval s
    evalBody (e' :: rest) s

/-- The body of the first clause that accepts a value. -/
def Expr.evalClauses : List (Expr × List Expr) → Term → State → Option (Term × State)
  | [], _, _ => none
  | (p, body) :: rest, t, s =>
    match p.accept? t s.env with
    | some env => evalBody body { s with env }
    | none => evalClauses rest t s

end

/-- The rows that a function emits for an argument.  Its parameters are new variables. -/
def Expr.emits? (f : Expr) (argument : Term) : Option (List (Term × Term)) :=
  match f with
  | .function clauses => do
    let (parameters, body) ← clauses.findSome? fun c =>
      (Expr.acceptAll? c.1 [argument] []).map fun env => (env, c.2)
    let (_, s) ← Expr.evalBody body { env := parameters ++ [("Emit", .emitter)] }
    return s.rows
  | _ => none

/-! ## Lookups -/

theorem utf8_injective : Function.Injective utf8 := by
  intro s t h
  have hdata : s.toUTF8.data = t.toUTF8.data := Array.toList_inj.mp h
  exact String.toByteArray_inj.mp (ByteArray.ext hdata)

theorem same_utf8 (s t : String) : (Term.binary (utf8 s)).same (.binary (utf8 t)) = (s == t) := by
  simp only [Term.same]
  by_cases h : s = t
  · simp [h]
  · rw [beq_eq_false_iff_ne.mpr h, beq_eq_false_iff_ne.mpr fun h' => h (utf8_injective h')]

theorem getValue_ofMembers (p : String) (default : Term) (ms : List (String × Json)) :
    getValue (.binary (utf8 p)) default (Term.ofMembers ms) =
      ((Entries.get? p ms).map Term.ofJson).getD default := by
  induction ms with
  | nil => rfl
  | cons m ms ih =>
    obtain ⟨k, v⟩ := m
    simp only [Term.ofMembers, getValue, same_utf8, Entries.get?]
    by_cases h : p = k
    · simp [h]
    · simp [h, ih]

section
variable {s : State} {ms : List (String × Json)}

theorem eval_lookup (hdoc : s.env.lookup "Doc" = some (.list (Term.ofMembers ms))) (p : String) :
    (lookup p).eval s = some (.ofJson ((Entries.get? p ms).getD .null), s) := by
  have hvalue : Term.ofJson ((Entries.get? p ms).getD .null) =
      ((Entries.get? p ms).map Term.ofJson).getD (.atom "null") := by
    cases Entries.get? p ms <;> rfl
  simp [lookup, MapFunction.Erlang.getValue, Expr.eval, Expr.evalAll, hdoc, library?,
    getValue_ofMembers, hvalue]

theorem eval_classOf (hdoc : s.env.lookup "Doc" = some (.list (Term.ofMembers ms))) :
    classOf.eval s = some (((Entries.get? "ruby_class" ms).map Term.ofJson).getD
      (.atom "undefined"), s) := by
  simp [classOf, MapFunction.Erlang.getValue, Expr.eval, Expr.evalAll, hdoc, library?,
    getValue_ofMembers]

end

/-! ## Generated functions -/

/-- Bindings of a key as variables of a run. -/
def boundIn (ms : List (String × Json)) (bs : List (String × String)) : Env :=
  bs.map fun b => (b.1, .ofJson ((Entries.get? b.2 ms).getD .null))

section
variable {ms : List (String × Json)}

theorem lookup_append_of_none {x : String} {env more : Env} (h : env.lookup x = none) :
    (env ++ more).lookup x = more.lookup x := by
  simp [List.lookup_append, h]

theorem lookup_append_of_some {x : String} {env more : Env} {t : Term}
    (h : env.lookup x = some t) : (env ++ more).lookup x = some t := by
  simp [List.lookup_append, h]

/-- a variable has the property it was bound to -/
theorem lookup_boundIn {bs : List (String × String)} (h : (bs.map Prod.fst).Nodup)
    {b : String × String} (hb : b ∈ bs) :
    (boundIn ms bs).lookup b.1 = some (.ofJson ((Entries.get? b.2 ms).getD .null)) := by
  induction bs with
  | nil => cases hb
  | cons c bs ih =>
    rw [List.map_cons, List.nodup_cons] at h
    rcases List.mem_cons.mp hb with rfl | hb
    · simp [boundIn]
    · have hne : b.1 ≠ c.1 := fun he => h.1 (he ▸ List.mem_map_of_mem hb)
      simp only [boundIn, List.map_cons, List.lookup_cons, beq_eq_false_iff_ne.mpr hne]
      exact ih h.2 hb

/-- the bindings of a key are made one after the other -/
theorem evalBody_bindings {s : State} {bs : List (String × String)} {e : Expr}
    (hdoc : s.env.lookup "Doc" = some (.list (Term.ofMembers ms)))
    (hnew : ∀ b ∈ bs, s.env.lookup b.1 = none) (hbs : (bs.map Prod.fst).Nodup) :
    Expr.evalBody (bs.map (fun b => .bind (.variable b.1) (lookup b.2)) ++ [e]) s =
      e.eval { s with env := s.env ++ boundIn ms bs } := by
  induction bs generalizing s with
  | nil => simp [boundIn, Expr.evalBody]
  | cons b bs ih =>
    rw [List.forall_mem_cons] at hnew
    rw [List.map_cons, List.nodup_cons] at hbs
    let t := Term.ofJson ((Entries.get? b.2 ms).getD .null)
    have hbind : (Expr.bind (.variable b.1) (lookup b.2)).eval s =
        some (t, { s with env := s.env ++ [(b.1, t)] }) := by
      simp [Expr.eval, eval_lookup hdoc, Expr.accept?, hnew.1, t]
    have hrest := ih (s := { s with env := s.env ++ [(b.1, t)] }) (lookup_append_of_some hdoc)
      (fun c hc => by
        have hne : c.1 ≠ b.1 := fun he => hbs.1 (he ▸ List.mem_map_of_mem hc)
        rw [lookup_append_of_none (hnew.2 c hc), List.lookup_cons, beq_eq_false_iff_ne.mpr hne]
        rfl) hbs.2
    have hbody : Expr.evalBody ((b :: bs).map (fun b => .bind (.variable b.1) (lookup b.2)) ++ [e])
        s = Expr.evalBody (bs.map (fun b => .bind (.variable b.1) (lookup b.2)) ++ [e])
          { s with env := s.env ++ [(b.1, t)] } := by
      cases bs with
      | nil => simp [Expr.evalBody, hbind]
      | cons c bs => simp [Expr.evalBody, hbind]
    rw [hbody, hrest, List.append_assoc]
    rfl

theorem evalAll_bound {s : State} {bs : List (String × String)}
    (h : ∀ b ∈ bs, s.env.lookup b.1 = some (.ofJson ((Entries.get? b.2 ms).getD .null))) :
    Expr.evalAll (bs.map fun b => .variable b.1) s =
      some (bs.map fun b => .ofJson ((Entries.get? b.2 ms).getD .null), s) := by
  induction bs with
  | nil => rfl
  | cons b bs ih =>
    rw [List.forall_mem_cons] at h
    simp [Expr.evalAll, Expr.eval, h.1, ih h.2]

theorem ofItems_eq_map (vs : List Json) : Term.ofItems vs = vs.map Term.ofJson := by
  induction vs with
  | nil => rfl
  | cons v vs ih => rw [Term.ofItems, ih, List.map_cons]

theorem eval_keyOf {s : State} (k : Option Key)
    (h : ∀ b ∈ bindings k, s.env.lookup b.1 = some (.ofJson ((Entries.get? b.2 ms).getD .null))) :
    (keyOf k).eval s = some (.ofJson (keyIn (.obj ms) k), s) := by
  match k with
  | none => rfl
  | some (.single p) =>
    have hkey := h ("Key", p) (List.mem_singleton.mpr rfl)
    simp only [keyOf, Expr.eval, hkey]
    rfl
  | some (.composite ps) =>
    have hnames : (ps.mapIdx fun i _ => keyName i).map Expr.variable =
        (bindings (some (.composite ps))).map fun b => .variable b.1 := by
      apply List.ext_getElem?
      intro i
      by_cases hi : i < ps.length <;> simp [bindings, hi]
    have hvalues : ((bindings (some (.composite ps))).map fun b =>
        Term.ofJson ((Entries.get? b.2 ms).getD .null)) =
          Term.ofItems (ps.map fun p => (Entries.get? p ms).getD .null) := by
      rw [ofItems_eq_map]
      apply List.ext_getElem?
      intro i
      by_cases hi : i < ps.length <;> simp [bindings, hi]
    rw [keyOf, Expr.eval, hnames, evalAll_bound h, hvalues]
    rfl

/-- The class of a document is a given one. -/
def hasClass (className : String) (d : Json) : Bool :=
  match d.get? "ruby_class" with
  | some (.str t) => t == className
  | _ => false

/-- the clause of the class is taken for its documents only -/
theorem accept?_class (className : String) (ms : List (String × Json)) (env : Env) :
    Expr.accept? (.binary (utf8 className)) (((Entries.get? "ruby_class" ms).map Term.ofJson).getD
      (.atom "undefined")) env = if hasClass className (.obj ms) then some env else none := by
  have hget : (Json.obj ms).get? "ruby_class" = Entries.get? "ruby_class" ms := rfl
  rw [hasClass, hget]
  match Entries.get? "ruby_class" ms with
  | none => rfl
  | some .null => rfl
  | some (.bool b) => rfl
  | some (.num (.int i)) => rfl
  | some (.num (.float x)) => rfl
  | some (.arr items) => rfl
  | some (.obj members) => rfl
  | some (.str t) =>
    simp only [Option.map_some, Option.getD_some, Term.ofJson, Expr.accept?]
    by_cases h : t = className
    · simp [h]
    · have hbytes : utf8 className ≠ utf8 t := fun h' => h (utf8_injective h').symm
      simp [h, hbytes]

/-- the variables of a key are none of those that a function begins with -/
theorem fresh_bindings {k : Option Key} {b : String × String} (h : b ∈ bindings k) :
    b.1 ≠ "Doc" ∧ b.1 ≠ "Emit" := by
  have hfirst := head?_bindings h
  refine ⟨?_, ?_⟩ <;> intro he <;> rw [he] at hfirst <;> exact absurd hfirst (by decide)

/-- **What a generated function emits**: one row for a document of the class, with the key that is
asked for, and nothing for the others. -/
theorem emits?_functionOf (className : String) (k : Option Key) (ms : List (String × Json)) :
    (functionOf className k).emits? (.ofJson (.obj ms)) =
      some (if hasClass className (.obj ms) then [(.ofJson (keyIn (.obj ms) k), .integer 1)]
        else []) := by
  let s : State := { env := [("Doc", .list (Term.ofMembers ms)), ("Emit", .emitter)] }
  have hdoc : s.env.lookup "Doc" = some (.list (Term.ofMembers ms)) := by simp [s]
  have hnew : ∀ b ∈ bindings k, s.env.lookup b.1 = none := by
    intro b hb
    obtain ⟨hd, he⟩ := fresh_bindings hb
    simp [s, List.lookup_cons, beq_eq_false_iff_ne.mpr hd, beq_eq_false_iff_ne.mpr he]
  have hbound : ∀ b ∈ bindings k, (s.env ++ boundIn ms (bindings k)).lookup b.1 =
      some (.ofJson ((Entries.get? b.2 ms).getD .null)) := by
    intro b hb
    rw [lookup_append_of_none (hnew b hb)]
    exact lookup_boundIn (nodup_bindings k) hb
  have hemit : (s.env ++ boundIn ms (bindings k)).lookup "Emit" = some .emitter :=
    lookup_append_of_some (by simp [s, List.lookup_cons])
  have hkey := eval_keyOf (s := { s with env := s.env ++ boundIn ms (bindings k) }) k hbound
  -- the body binds a fresh variable for each part of the key, and then emits
  have hbody : Expr.evalBody (bodyOf k) s = some (.atom "ok",
      { env := s.env ++ boundIn ms (bindings k),
        rows := [(.ofJson (keyIn (.obj ms) k), .integer 1)] }) := by
    rw [bodyOf, evalBody_bindings hdoc hnew (nodup_bindings k)]
    simp only [Expr.eval, Expr.evalAll, hemit, hkey, Option.map_some, Option.bind_eq_bind,
      Option.bind_some]
    rfl
  have hcase : Expr.evalBody [.cases classOf [(.binary (utf8 className), bodyOf k),
      (.wildcard, [.atom "ok"])]] s = if hasClass className (.obj ms) then
        Expr.evalBody (bodyOf k) s else some (.atom "ok", s) := by
    simp only [Expr.evalBody, Expr.eval, eval_classOf hdoc, Option.bind_eq_bind, Option.bind_some,
      Expr.evalClauses, accept?_class]
    cases hasClass className (.obj ms) <;> rfl
  have hrun : (functionOf className k).emits? (.ofJson (.obj ms)) =
      (Expr.evalBody [.cases classOf [(.binary (utf8 className), bodyOf k),
        (.wildcard, [.atom "ok"])]] s).map fun r => r.2.rows := by
    show (Expr.evalBody _ s >>= fun r => some r.2.rows) = _
    rw [Option.map_eq_bind]
    rfl
  rw [hrun, hcase]
  cases hasClass className (.obj ms) with
  | true => simp [hbody]
  | false => simp [s]

end

end ViewDesign.Erlang
