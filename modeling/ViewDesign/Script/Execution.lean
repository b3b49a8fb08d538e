import ViewDesign.Script.Coercion
import ViewDesign.Script.JsonText
import ViewDesign.Script.Parser

/-!
# Running a script

Expressions and statements are computed by recursion on their form; a call is left to a `Caller`,
and `apply` ties the knot: it carries out calls that nest at most so deeply.  A loop is a function
of its test, its body and its step, and makes at most so many rounds.

* `Expr.eval`, `Stmt.exec`    expressions and statements;
* `Closure.enter`             the body of a function with its arguments;
* `Value.invoke`              a function with its receiver and arguments;
* `apply`                     calls up to a depth;
* `run`                       a whole script: the value of its last statement.
-/

namespace ViewDesign.Script

/-- How a statement ends. -/
inductive Completion where
  /-- the next one follows; an expression leaves its value -/
  | normal (v : Value)
  /-- the function ends -/
  | returned (v : Value)
deriving Inhabited

/-- Repeats a body and a step as long as a test holds, at most so many times. -/
def repeatWhile (test : Run Bool) (body : Run Completion) (step : Run Unit) : Nat → Run Completion
  | 0 => throw .exhausted
  | rounds + 1 => do
    if ← test then
      match ← body with
      | .returned v => return .returned v
      | .normal _ => do
        step
        repeatWhile test body step rounds
    else return .normal .undefined

/-- How many rounds a loop may make. -/
def maxRounds : Nat := 9007199254740993

/-! ## Functions -/

/-- Makes a function. -/
def makeFunction (name : String) (parameters : List String) (body : List Stmt) (scope : Scope) :
    Run Value :=
  return .object (← Run.allocate (.ofClosure name ⟨parameters, body, scope⟩))

/-- Makes a function that can refer to itself by a name. -/
def makeNamed (name : String) (parameters : List String) (body : List Stmt) (scope : Scope) :
    Run Value := do
  let frame ← Run.allocate {}
  let f ← makeFunction name parameters body (frame :: scope)
  Run.setOwn frame name f
  return f

/-- The value of an expression that is given a name at once: a function without one is called by
it. -/
def Expr.named (scope : Scope) (name : Option String) (e : Expr) (value : Run Value) : Run Value :=
  match name, e with
  | some name, .function none parameters body => makeFunction name parameters body scope
  | _, _ => value

/-- The name that a target gives to what is assigned to it. -/
def Target.name? : Target → Option String
  | .name x => some x
  | .member _ _ => none

/-- The name that a member of an object gives to its value. -/
def memberName? (name : String) : Option String :=
  if name = ancestorName then none else some name

/-- What an object inherits from whose members are written down with these values. -/
def ancestorIn (entries : List (String × Value)) : Option (Option Nat) :=
  match Entries.get? ancestorName entries with
  | some (.object a) => some (some a)
  | some .null => some none
  | _ => none

/-- An object whose members are written down with these values. -/
def Object.ofLiteral (entries : List (String × Value)) : Object where
  inherits := ancestorIn entries
  members := Entries.made (entries.filter fun e => e.1 ≠ ancestorName)

/-- Parameters with their arguments, undefined where there is none. -/
def bindArguments : List String → List Value → List (String × Value)
  | [], _ => []
  | x :: xs, [] => (x, .undefined) :: bindArguments xs []
  | x :: xs, v :: vs => (x, v) :: bindArguments xs vs

/-- Declares variables in a frame; those it has keep their value. -/
def declareAll (frame : Nat) : List String → Run Unit
  | [] => return ()
  | x :: rest => do
    let o ← Run.load frame
    let isConstant := frame == Scope.globals && (Scope.constant? x).isSome
    if (Entries.get? x o.members).isNone && !isConstant then Run.setOwn frame x .undefined
    declareAll frame rest

/-- Makes the functions that are declared in a body. -/
def defineAll (frame : Nat) (scope : Scope) : List (String × List String × List Stmt) → Run Unit
  | [] => return ()
  | (name, parameters, body) :: rest => do
    let f ← makeFunction name parameters body scope
    Run.setOwn frame name f
    defineAll frame scope rest

/-- Makes the variables and functions that are declared in a body, before it runs. -/
def prepare (frame : Nat) (scope : Scope) (body : List Stmt) : Run Unit := do
  declareAll frame (Stmt.allDeclared body)
  defineAll frame scope (Stmt.allFunctions body)

/-! ## Places -/

/-- A place that can be read and written. -/
inductive Place where
  | variable (x : String)
  | member (object : Value) (key : String)
deriving Inhabited

namespace Place

/-- The value at a place. -/
def read (scope : Scope) : Place → Run Value
  | .variable x => scope.read x
  | .member v key => v.getMember key

/-- Puts a value at a place. -/
def write (scope : Scope) (new : Value) : Place → Run Unit
  | .variable x => scope.write x new
  | .member v key => v.setMember key new

end Place

/-! ## Expressions and statements -/

mutual

/-- The value of an expression. -/
def Expr.eval (call : Caller) (scope : Scope) : Expr → Run Value
  | .absent => return .undefined
  | .null => return .null
  | .bool b => return .bool b
  | .number n => return .number n
  | .text s => return .text s
  | .name x => scope.read x
  | .array items => do
    let values ← Expr.evalAll call scope items
    return .object (← Run.allocate { kind := .array values.toArray })
  | .object members => do
    let entries ← Expr.evalMembers call scope members
    return .object (← Run.allocate (.ofLiteral entries))
  | .function none parameters body => makeFunction "" parameters body scope
  | .function (some name) parameters body => makeNamed name parameters body scope
  | .member object key => do
    let v ← object.eval call scope
    let k ← key.eval call scope
    v.getMember (← k.textual call)
  | .call (.member object key) arguments => do
    let v ← object.eval call scope
    let k ← key.eval call scope
    let f ← v.getMember (← k.textual call)
    let args ← Expr.evalAll call scope arguments
    call v f args
  | .call function arguments => do
    let f ← function.eval call scope
    let args ← Expr.evalAll call scope arguments
    call .undefined f args
  | .typeOf (.name x) => do
    let v ← scope.read? x
    return .text (← (v.getD .undefined).typeName)
  | .typeOf e => do
    let v ← e.eval call scope
    return .text (← v.typeName)
  | .unary op e => do
    let v ← e.eval call scope
    op.apply call v
  | .binary op left right => do
    let v ← left.eval call scope
    let w ← right.eval call scope
    op.apply call v w
  | .and left right => do
    let v ← left.eval call scope
    if v.truth then right.eval call scope else return v
  | .or left right => do
    let v ← left.eval call scope
    if v.truth then return v else right.eval call scope
  | .choice test yes no => do
    let v ← test.eval call scope
    if v.truth then yes.eval call scope else no.eval call scope
  | .sequence first second => do
    let _ ← first.eval call scope
    second.eval call scope
  | .assign target e => do
    let place ← target.place call scope
    let v ← e.named scope target.name? (e.eval call scope)
    place.write scope v
    return v
  | .update target op e => do
    let place ← target.place call scope
    let old ← place.read scope
    let v ← e.eval call scope
    let new ← op.apply call old v
    place.write scope new
    return new
  | .count target up valueAfter => do
    let place ← target.place call scope
    let old ← (← place.read scope).numeric call
    let new := if up then old.add (.int 1) else old.sub (.int 1)
    place.write scope (.number new)
    return .number (if valueAfter then new else old)

/-- The values of expressions, from left to right. -/
def Expr.evalAll (call : Caller) (scope : Scope) : List Expr → Run (List Value)
  | [] => return []
  | e :: rest => do
    let v ← e.eval call scope
    return v :: (← Expr.evalAll call scope rest)

/-- The values of the members of an object. -/
def Expr.evalMembers (call : Caller) (scope : Scope) :
    List (String × Expr) → Run (List (String × Value))
  | [] => return []
  | (name, e) :: rest => do
    let v ← e.named scope (memberName? name) (e.eval call scope)
    return (name, v) :: (← Expr.evalMembers call scope rest)

/-- The place a target denotes. -/
def Target.place (call : Caller) (scope : Scope) : Target → Run Place
  | .name x => return .variable x
  | .member object key => do
    let v ← object.eval call scope
    let k ← key.eval call scope
    return .member v (← k.textual call)

end

mutual

/-- Carries out a statement. -/
def Stmt.exec (call : Caller) (scope : Scope) : Stmt → Run Completion
  | .expression e => return .normal (← e.eval call scope)
  | .declare _ => return .normal .undefined
  | .define _ _ _ => return .normal .undefined
  | .block body => Stmt.execAll call scope body
  | .when test body => do
    if (← test.eval call scope).truth then body.exec call scope else return .normal .undefined
  | .branch test yes no => do
    if (← test.eval call scope).truth then yes.exec call scope else no.exec call scope
  | .loop test step body =>
    repeatWhile (do return (← test.eval call scope).truth) (body.exec call scope)
      (do let _ ← step.eval call scope) maxRounds
  | .result e => return .returned (← e.eval call scope)

/-- Carries out statements one after the other; the last one decides how they end. -/
def Stmt.execAll (call : Caller) (scope : Scope) : List Stmt → Run Completion
  | [] => return .normal .undefined
  | [s] => s.exec call scope
  | s :: rest => do
    match ← s.exec call scope with
    | .returned v => return .returned v
    | .normal _ => Stmt.execAll call scope rest

end

/-! ## Calls -/

/-- Carries out the body of a function with its arguments. -/
def Closure.enter (call : Caller) (c : Closure) (args : List Value) : Run Value := do
  let frame ← Run.allocate { members := Entries.made (bindArguments c.parameters args) }
  let scope := frame :: c.scope
  prepare frame scope c.body
  match ← Stmt.execAll call scope c.body with
  | .returned v => return v
  | .normal _ => return .undefined

/-- Appends to an array; the value is its new length. -/
def Value.push (v : Value) (args : List Value) : Run Value := do
  match v with
  | .object a =>
    let o ← Run.load a
    match o.kind with
    | .array items => do
      let items := items ++ args.toArray
      Run.store a { o with kind := .array items }
      return .number (.ofInt items.size)
    | _ => throw .unknown
  | .undefined => Run.thrown
  | .null => Run.thrown
  | _ => throw .unknown

/-- Calls a function that is there from the start. -/
def Builtin.call (call : Caller) (b : Builtin) (receiver : Value) (args : List Value) : Run Value :=
  let first := args.headD .undefined
  match b with
  | .parse => do Value.parse (← first.textual call)
  -- the other arguments change what is written
  | .stringify => if args.length ≤ 1 then first.stringify call else throw .unknown
  | .push => receiver.push args
  | .join => return .text (← receiver.join call first)
  | .hasOwn => do
    let key ← first.textual call
    return .bool (← receiver.hasOwn key)
  | .kindText => return .text (← receiver.kindText)
  | .arrayText => receiver.arrayText call
  | .functionText => return .text (← receiver.functionText)
  | .itself => if receiver.isNothing then Run.thrown else return receiver
  | .text type => do
    let v ← receiver.ofType type
    -- a number may be written in another base
    if type = .number ∧ !args.isEmpty then throw .unknown else return .text v.toText
  | .value type => receiver.ofType type
  | .other => throw .unknown

/-- Calls a function.  What it calls in turn is left to a caller. -/
def Value.invoke (call : Caller) (receiver f : Value) (args : List Value) : Run Value :=
  match f with
  | .object a => do
    match (← Run.load a).kind with
    | .function c => c.enter call args
    | .native b => b.call call receiver args
    | _ => Run.thrown
  | _ => Run.thrown

/-- Calls a function whose calls may nest so deeply. -/
def apply : Nat → Caller
  | 0, _, _, _ => throw .exhausted
  | depth + 1, receiver, f, args => receiver.invoke (apply depth) f args

/-- How deeply calls may nest. -/
def maxDepth : Nat := 512

/-- Carries out the statements of a script. -/
def runAll (body : List Stmt) : Run Value := do
  prepare Scope.globals [Scope.globals] body
  match ← Stmt.execAll (apply maxDepth) [Scope.globals] body with
  | .normal v => return v
  | .returned _ => Run.thrown

/-- The value of a script. -/
def run (cs : List Char) : Except Fault Value :=
  match Stmt.parse? cs with
  | some body => (runAll body).run' Realm.heap
  | none => .error .malformed

end ViewDesign.Script
