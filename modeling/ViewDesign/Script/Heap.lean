import ViewDesign.NameMap
import ViewDesign.Script.Expr

/-!
# Values and the heap of a running script

Objects are shared and may change, so a value refers to an object by its address.  The variables of
a scope are the members of an object of their own; a scope is the list of the addresses of these
objects, the innermost first.

* `Entries.made`    entries of different names, in the order in which they were made;
* `Value`           a value; objects by address;
* `Object`          what an address holds;
* `Heap`            the objects made so far; an address is the number of objects made before it;
* `Run`             a computation that reads and changes the heap and may fail.
-/

namespace ViewDesign

/-! ## Entries in the order in which they were made -/

namespace Entries

variable {α : Type}

/-- Writes an entry, in place of the one of its name or after all others. -/
def put (name : String) (a : α) : List (String × α) → List (String × α)
  | [] => [(name, a)]
  | (k, b) :: rest => if name = k then (name, a) :: rest else (k, b) :: put name a rest

/-- Entries written one after the other; a name stays where it came first. -/
def made (entries : List (String × α)) : List (String × α) :=
  entries.foldl (fun done e => put e.1 e.2 done) []

end Entries

namespace Script

/-! ## Values and objects -/

/-- The values that are no objects and have members all the same. -/
inductive Primitive where
  | text
  | number
  | boolean
deriving Repr, DecidableEq, Inhabited

/-- What a function does that is there from the start. -/
inductive Builtin where
  | parse
  | stringify
  /-- appends to an array -/
  | push
  /-- the elements of an array as one text -/
  | join
  /-- whether an object has a member of its own -/
  | hasOwn
  /-- the text that tells what kind of object it is -/
  | kindText
  /-- the text of an array -/
  | arrayText
  /-- the text of a function -/
  | functionText
  /-- the object itself -/
  | itself
  /-- the text of a value that is no object -/
  | text (type : Primitive)
  /-- a value that is no object, itself -/
  | value (type : Primitive)
  /-- one of the many functions whose effect is not described here -/
  | other
deriving Repr, DecidableEq, Inhabited

/-- A value. -/
inductive Value where
  | undefined
  | null
  | bool (b : Bool)
  | number (n : Number)
  | text (s : String)
  | object (address : Nat)
deriving Inhabited

/-- The addresses of the variables in reach, the innermost first. -/
abbrev Scope := List Nat

/-- A function together with the variables in reach where it was made. -/
structure Closure where
  parameters : List String
  body : List Stmt
  scope : Scope
deriving Inhabited

/-- What an object is besides its members. -/
inductive Kind where
  | plain
  /-- the object that holds `parse` and `stringify` -/
  | json
  | array (items : Array Value)
  | function (closure : Closure)
  /-- a function that is there from the start -/
  | native (b : Builtin)
  /-- an object that stands for a value that is none -/
  | wrapped (v : Value)
deriving Inhabited

/-- A member that does not count as one of the members that a script has given to an object. -/
inductive Slot where
  | value (v : Value)
  /-- a value that stays as it is -/
  | locked (v : Value)
  /-- the object that is inherited from -/
  | ancestor
deriving Inhabited

/-- An object.  Its members are kept in the order in which they were made. -/
structure Object where
  kind : Kind := .plain
  /-- the object it inherits from, if any; nothing if that is the usual one for its kind -/
  inherits : Option (Option Nat) := none
  /-- members that are not listed -/
  hidden : List (String × Slot) := []
  members : List (String × Value) := []
deriving Inhabited

/-- The objects made so far. -/
abbrev Heap := Array Object

/-- Why a script has no result. -/
inductive Fault where
  /-- its text is malformed -/
  | malformed
  /-- it did something that is not allowed -/
  | thrown
  /-- it went on for longer, or nested its calls or its values more deeply, than it may -/
  | exhausted
  /-- it used something whose effect is not described here -/
  | unknown
deriving Repr, DecidableEq, Inhabited

/-- A computation on the heap. -/
abbrev Run := StateT Heap (Except Fault)

/-! ## Addresses that are fixed -/

namespace Realm

/-- The object that holds `parse` and `stringify`, which follow it. -/
def json : Nat := 1

/-- What all objects inherit from. -/
def objectPrototype : Nat := 4

/-- What functions inherit from. -/
def functionPrototype : Nat := 5

/-- What arrays inherit from. -/
def arrayPrototype : Nat := 6

/-- What values that are no objects inherit from. -/
def prototypeOf : Primitive → Nat
  | .text => 7
  | .number => 8
  | .boolean => 9

end Realm

/-- What an object of a kind inherits from. -/
def Kind.parent : Kind → Nat
  | .plain => Realm.objectPrototype
  | .json => Realm.objectPrototype
  | .array _ => Realm.arrayPrototype
  | .function _ => Realm.functionPrototype
  | .native _ => Realm.functionPrototype
  | .wrapped _ => Realm.objectPrototype

/-- What an object inherits from. -/
def Object.parent (o : Object) : Option Nat :=
  match o.inherits with
  | some p => p
  | none => some o.kind.parent

namespace Run

/-- Something that is not allowed. -/
def thrown {α : Type} : Run α := throw .thrown

/-- Makes an object and gives its address. -/
def allocate (o : Object) : Run Nat := do
  let heap ← get
  set (heap.push o)
  return heap.size

/-- The object at an address. -/
def load (address : Nat) : Run Object := do
  return (← get)[address]?.getD {}

/-- Changes the object at an address. -/
def store (address : Nat) (o : Object) : Run Unit := modify fun heap => heap.setIfInBounds address o

/-- Writes a member of the object at an address. -/
def setOwn (address : Nat) (name : String) (v : Value) : Run Unit := do
  let o ← load address
  store address { o with members := Entries.put name v o.members }

end Run

/-! ## Variables -/

namespace Scope

/-- The frame that holds a variable, and the value it has there. -/
def find? (heap : Heap) (x : String) : Scope → Option (Nat × Value)
  | [] => none
  | frame :: outer =>
    match heap[frame]?.bind fun o => Entries.get? x o.members with
    | some v => some (frame, v)
    | none => find? heap x outer

/-- The names that are there without having been declared and cannot be changed. -/
def constant? (x : String) : Option Value :=
  if x = "undefined" then some .undefined
  else if x = "NaN" then some (.number .nan)
  else if x = "Infinity" then some (.number .infinity)
  else none

/-- The names that are there without having been declared. -/
def builtin? (x : String) : Option Value :=
  if x = "JSON" then some (.object Realm.json) else constant? x

/-- The address of the variables that are in reach everywhere. -/
def globals : Nat := 0

/-- The value of a name, if it has one. -/
def read? (scope : Scope) (x : String) : Run (Option Value) := do
  return ((scope.find? (← get) x).map Prod.snd).or (builtin? x)

/-- The value of a name. -/
def read (scope : Scope) (x : String) : Run Value := do
  match ← scope.read? x with
  | some v => return v
  | none => Run.thrown

/-- Gives a name a value.  A name that was not declared becomes a global variable, unless it is a
constant. -/
def write (scope : Scope) (x : String) (v : Value) : Run Unit := do
  match scope.find? (← get) x with
  | some (frame, _) => Run.setOwn frame x v
  | none => if (constant? x).isSome then return () else Run.setOwn globals x v

end Scope

end Script

end ViewDesign
