import ViewDesign.Script.Heap

/-!
# Names in scope

Which names an expression or a statement uses can be read off its form, because a function knows
its own names before it runs: its parameters, the variables and the functions declared in it.

* `Stmt.localNames`    the names of a function;
* `Expr.closed`        every name is one of the given ones or a constant, except that `emit` may
                       be called; only the given ones are assigned to;
* `Expr.plain`         nothing is assigned, counted or called.
-/

namespace ViewDesign.Script

/-- The names that a function has besides those around it. -/
def Stmt.localNames (parameters : List String) (body : List Stmt) : List String :=
  parameters ++ Stmt.allDeclared body ++ (Stmt.allFunctions body).map Prod.fst

/-- Whether a name has a value: it is in scope, or a constant. -/
def known (bound : List String) (x : String) : Bool :=
  decide (x ∈ bound) || (Scope.constant? x).isSome

/-- Whether an expression is the name `emit`. -/
def Expr.isEmit : Expr → Bool
  | .name x => x == "emit"
  | _ => false

mutual

/-- Whether an expression uses only names in scope and constants, and `emit` only to call it. -/
def Expr.closed (bound : List String) : Expr → Bool
  | .absent => true
  | .null => true
  | .bool _ => true
  | .number _ => true
  | .text _ => true
  | .name x => known bound x
  | .array items => Expr.allClosed bound items
  | .object members => Expr.membersClosed bound members
  | .function name parameters body =>
    Stmt.allClosed (Stmt.localNames parameters body ++ (name.toList ++ bound)) body
  | .member object key => object.closed bound && key.closed bound
  | .call function arguments =>
    (function.isEmit || function.closed bound) && Expr.allClosed bound arguments
  | .typeOf e => e.closed bound
  | .unary _ e => e.closed bound
  | .binary _ left right => left.closed bound && right.closed bound
  | .and left right => left.closed bound && right.closed bound
  | .or left right => left.closed bound && right.closed bound
  | .choice test yes no => test.closed bound && yes.closed bound && no.closed bound
  | .sequence first second => first.closed bound && second.closed bound
  | .assign target e => target.closed bound && e.closed bound
  | .update target _ e => target.closed bound && e.closed bound
  | .count target _ _ => target.closed bound

/-- Whether all of some expressions do. -/
def Expr.allClosed (bound : List String) : List Expr → Bool
  | [] => true
  | e :: rest => e.closed bound && Expr.allClosed bound rest

/-- Whether the values of all members do. -/
def Expr.membersClosed (bound : List String) : List (String × Expr) → Bool
  | [] => true
  | (_, e) :: rest => e.closed bound && Expr.membersClosed bound rest

/-- Whether a target is a name in scope, or a member of an expression that is closed. -/
def Target.closed (bound : List String) : Target → Bool
  | .name x => decide (x ∈ bound)
  | .member object key => object.closed bound && key.closed bound

/-- Whether a statement uses only names in scope and constants, and `emit` only to call it. -/
def Stmt.closed (bound : List String) : Stmt → Bool
  | .expression e => e.closed bound
  | .declare _ => true
  | .define _ parameters body =>
    Stmt.allClosed (Stmt.localNames parameters body ++ bound) body
  | .block body => Stmt.allClosed bound body
  | .when test body => test.closed bound && body.closed bound
  | .branch test yes no => test.closed bound && yes.closed bound && no.closed bound
  | .loop test step body => test.closed bound && step.closed bound && body.closed bound
  | .result e => e.closed bound

/-- Whether all of some statements do. -/
def Stmt.allClosed (bound : List String) : List Stmt → Bool
  | [] => true
  | s :: rest => s.closed bound && Stmt.allClosed bound rest

end

mutual

/-- Whether an expression assigns, counts and calls nothing. -/
def Expr.plain : Expr → Bool
  | .array items => Expr.allPlain items
  | .object members => Expr.membersPlain members
  | .function _ _ body => Stmt.allPlain body
  | .member object key => object.plain && key.plain
  | .typeOf e => e.plain
  | .unary _ e => e.plain
  | .binary _ left right => left.plain && right.plain
  | .and left right => left.plain && right.plain
  | .or left right => left.plain && right.plain
  | .choice test yes no => test.plain && yes.plain && no.plain
  | .sequence first second => first.plain && second.plain
  | .call _ _ => false
  | .assign _ _ => false
  | .update _ _ _ => false
  | .count _ _ _ => false
  | _ => true

/-- Whether none of some expressions does. -/
def Expr.allPlain : List Expr → Bool
  | [] => true
  | e :: rest => e.plain && Expr.allPlain rest

/-- Whether no value of a member does. -/
def Expr.membersPlain : List (String × Expr) → Bool
  | [] => true
  | (_, e) :: rest => e.plain && Expr.membersPlain rest

/-- Whether a statement assigns, counts and calls nothing. -/
def Stmt.plain : Stmt → Bool
  | .expression e => e.plain
  | .declare _ => true
  | .define _ _ body => Stmt.allPlain body
  | .block body => Stmt.allPlain body
  | .when test body => test.plain && body.plain
  | .branch test yes no => test.plain && yes.plain && no.plain
  | .loop test step body => test.plain && step.plain && body.plain
  | .result e => e.plain

/-- Whether none of some statements does. -/
def Stmt.allPlain : List Stmt → Bool
  | [] => true
  | s :: rest => s.plain && Stmt.allPlain rest

end

/-! ## Declared functions -/

/-- What is asked of a declared function: that its body is closed, and plain if need be. -/
def Declared (plain : Bool) (bound : List String) (f : String × List String × List Stmt) : Prop :=
  Stmt.allClosed (Stmt.localNames f.2.1 f.2.2 ++ bound) f.2.2 = true ∧
    (plain = true → Stmt.allPlain f.2.2 = true)

mutual

/-- the functions declared in a closed statement are closed -/
theorem Stmt.declared_of_closed (plain : Bool) (bound : List String) (s : Stmt)
    (h : s.closed bound = true) (hp : plain = true → s.plain = true) :
    ∀ f ∈ s.functions, Declared plain bound f := by
  cases s with
  | expression e => simp [Stmt.functions]
  | declare x => simp [Stmt.functions]
  | define name parameters body =>
    simp only [Stmt.functions, List.mem_singleton, forall_eq]
    simp only [Stmt.closed] at h
    simp only [Stmt.plain] at hp
    exact ⟨h, hp⟩
  | block body =>
    simp only [Stmt.functions]
    simp only [Stmt.closed] at h
    simp only [Stmt.plain] at hp
    exact Stmt.declared_of_allClosed plain bound body h hp
  | «when» test body =>
    simp only [Stmt.functions]
    simp only [Stmt.closed, Bool.and_eq_true] at h
    simp only [Stmt.plain, Bool.and_eq_true] at hp
    exact Stmt.declared_of_closed plain bound body h.2 (fun e => (hp e).2)
  | branch test yes no =>
    simp only [Stmt.functions]
    simp only [Stmt.closed, Bool.and_eq_true] at h
    simp only [Stmt.plain, Bool.and_eq_true] at hp
    intro f hf
    rcases List.mem_append.1 hf with hf | hf
    · exact Stmt.declared_of_closed plain bound yes h.1.2 (fun e => (hp e).1.2) f hf
    · exact Stmt.declared_of_closed plain bound no h.2 (fun e => (hp e).2) f hf
  | loop test step body =>
    simp only [Stmt.functions]
    simp only [Stmt.closed, Bool.and_eq_true] at h
    simp only [Stmt.plain, Bool.and_eq_true] at hp
    exact Stmt.declared_of_closed plain bound body h.2 (fun e => (hp e).2)
  | result e => simp [Stmt.functions]

theorem Stmt.declared_of_allClosed (plain : Bool) (bound : List String) (body : List Stmt)
    (h : Stmt.allClosed bound body = true) (hp : plain = true → Stmt.allPlain body = true) :
    ∀ f ∈ Stmt.allFunctions body, Declared plain bound f := by
  cases body with
  | nil => simp [Stmt.allFunctions]
  | cons s rest =>
    simp only [Stmt.allFunctions]
    simp only [Stmt.allClosed, Bool.and_eq_true] at h
    simp only [Stmt.allPlain, Bool.and_eq_true] at hp
    intro f hf
    rcases List.mem_append.1 hf with hf | hf
    · exact Stmt.declared_of_closed plain bound s h.1 (fun e => (hp e).1) f hf
    · exact Stmt.declared_of_allClosed plain bound rest h.2 (fun e => (hp e).2) f hf

end

end ViewDesign.Script
