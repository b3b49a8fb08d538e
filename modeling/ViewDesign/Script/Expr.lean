import ViewDesign.Script.Number

/-!
# Expressions and statements of a script

* `Expr`      what has a value; `doc.name` and `doc['name']` are one and the same expression;
* `Target`    what can be assigned to;
* `Stmt`      what is done; a variable declared with a value is a declaration and an assignment.
-/

namespace ViewDesign.Script

/-- The operators on one value. -/
inductive UnaryOp where
  | not
  | negate
  | number
deriving Repr, DecidableEq, Inhabited

/-- The operators on two values, both of which are always computed. -/
inductive BinaryOp where
  | add | subtract | multiply | divide | remainder
  | less | lessEqual | greater | greaterEqual
  /-- equal after conversion -/
  | equal | notEqual
  /-- equal as they are -/
  | same | notSame
deriving Repr, DecidableEq, Inhabited

mutual

/-- An expression. -/
inductive Expr where
  /-- nothing was written where a value may stand -/
  | absent
  | null
  | bool (b : Bool)
  | number (n : Number)
  | text (s : String)
  | name (x : String)
  | array (items : List Expr)
  | object (members : List (String × Expr))
  | function (name : Option String) (parameters : List String) (body : List Stmt)
  | member (object key : Expr)
  | call (function : Expr) (arguments : List Expr)
  | typeOf (e : Expr)
  | unary (op : UnaryOp) (e : Expr)
  | binary (op : BinaryOp) (left right : Expr)
  /-- the left side if it counts as false, else the right side -/
  | and (left right : Expr)
  /-- the left side if it counts as true, else the right side -/
  | or (left right : Expr)
  | choice (test yes no : Expr)
  | sequence (first second : Expr)
  | assign (target : Target) (value : Expr)
  /-- assigns what the operator makes of the old value and another one -/
  | update (target : Target) (op : BinaryOp) (value : Expr)
  /-- adds one or takes one away; the value is the number after or before that -/
  | count (target : Target) (up valueAfter : Bool)

/-- What can be assigned to. -/
inductive Target where
  | name (x : String)
  | member (object key : Expr)

/-- A statement. -/
inductive Stmt where
  | expression (e : Expr)
  /-- declares a variable -/
  | declare (x : String)
  /-- declares a function -/
  | define (name : String) (parameters : List String) (body : List Stmt)
  | block (body : List Stmt)
  | when (test : Expr) (body : Stmt)
  | branch (test : Expr) (yes no : Stmt)
  /-- repeats the body as long as the test holds, and the step after each round -/
  | loop (test step : Expr) (body : Stmt)
  /-- ends the function with a value -/
  | result (e : Expr)

end

instance : Inhabited Expr := ⟨.absent⟩
instance : Inhabited Stmt := ⟨.block []⟩

/-- The name of the member that stands for what an object inherits from. -/
def ancestorName : String := "__proto__"

namespace Expr

/-- The target an expression is, if it is one. -/
def target? : Expr → Option Target
  | .name x => some (.name x)
  | .member o k => some (.member o k)
  | _ => none

end Expr

namespace Stmt

/-- A variable declared with a value. -/
def declareAs (x : String) (e : Expr) : Stmt :=
  .block [.declare x, .expression (.assign (.name x) e)]

/-- Whether a statement may stand inside another one: a function may not be declared there. -/
def isInner : Stmt → Bool
  | .define _ _ _ => false
  | _ => true

mutual

/-- Whether a statement returns from the function that it is in. -/
def returns : Stmt → Bool
  | .block body => anyReturns body
  | .when _ body => body.returns
  | .branch _ yes no => yes.returns || no.returns
  | .loop _ _ body => body.returns
  | .result _ => true
  | _ => false

/-- Whether one of some statements does. -/
def anyReturns : List Stmt → Bool
  | [] => false
  | s :: rest => s.returns || anyReturns rest

end

mutual

/-- The variables declared in a statement, those of inner functions apart. -/
def declared : Stmt → List String
  | .declare x => [x]
  | .block body => allDeclared body
  | .when _ body => body.declared
  | .branch _ yes no => yes.declared ++ no.declared
  | .loop _ _ body => body.declared
  | _ => []

/-- The variables declared in statements. -/
def allDeclared : List Stmt → List String
  | [] => []
  | s :: rest => s.declared ++ allDeclared rest

end

mutual

/-- The functions declared in a statement: name, parameters and body. -/
def functions : Stmt → List (String × List String × List Stmt)
  | .define name parameters body => [(name, parameters, body)]
  | .block body => allFunctions body
  | .when _ body => body.functions
  | .branch _ yes no => yes.functions ++ no.functions
  | .loop _ _ body => body.functions
  | _ => []

/-- The functions declared in statements. -/
def allFunctions : List Stmt → List (String × List String × List Stmt)
  | [] => []
  | s :: rest => s.functions ++ allFunctions rest

end

end Stmt

end ViewDesign.Script
