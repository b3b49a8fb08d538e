import ViewDesign.Decimal.Reading
import ViewDesign.Script.Realm
import ViewDesign.Text.Units

/-!
# Members of values

Every value but null and undefined has members: those of its own, and those of the objects that it
inherits from, one after the other.  A member that is written becomes one of its own; only objects
keep what is written to them.  The member `__proto__` is the object inherited from.

* `visited`            the order in which the members of an object are visited;
* `Heap.find`          the first object that has a member;
* `Value.getMember`    reads a member;
* `Value.setMember`    writes one.
-/

namespace ViewDesign.Script

/-- The greatest length of an array, `2 ^ 32 - 1`. -/
def maxLength : Nat := 4294967295

/-- The position that a name denotes in an array or a text: the canonical decimal of a number
below the greatest length. -/
def index? (key : String) : Option Nat :=
  (Decimal.natural? 10 key.toList).filter fun n =>
    decide (n < maxLength) && Decimal.digitsOf n == key.toList

/-- Whether a member is visited before another one although it was made later. -/
def isBefore (a b : String) : Bool :=
  match index? a, index? b with
  | some i, some j => i < j
  | some _, none => true
  | none, _ => false

/-- Puts a name in its place among names that were made later. -/
def place (name : String) : List String → List String
  | [] => [name]
  | k :: rest => if isBefore k name then k :: place name rest else name :: k :: rest

/-- The names of members in the order in which these are visited: positions come first, in their
order, and then the other names as they were made. -/
def visited (names : List String) : List String := names.foldr place []

/-- How many objects may inherit from each other, and how deeply values may contain each other. -/
def maxNesting : Nat := 9007199254740993

namespace Object

/-- The element that a name denotes: the name is the canonical decimal of its position. -/
def element? (items : Array Value) (key : String) : Option Value := do
  let i ← Decimal.natural? 10 key.toList
  let v ← items[i]?
  if Decimal.digitsOf i == key.toList then some v else none

/-- A member that is kept with an object. -/
def kept? (o : Object) (key : String) : Option Slot :=
  (Entries.get? key o.hidden).or ((Entries.get? key o.members).map .value)

/-- A member that an object has of its own. -/
def own? (o : Object) (key : String) : Option Slot :=
  match o.kind with
  | .array items =>
    if key = "length" then some (.value (.number (.ofInt items.size)))
    else ((element? items key).map .value).or (o.kept? key)
  | _ => o.kept? key

/-- The object with a member of its own. -/
def put (o : Object) (key : String) (v : Value) : Object :=
  if (Entries.get? key o.hidden).isSome then
    { o with hidden := o.hidden.map fun e => if e.1 = key then (key, .value v) else e }
  else { o with members := Entries.put key v o.members }

/-- How many places an array may grow by at once. -/
def growth : Nat := 65536

/-- The elements up to a new length, undefined where there were none. -/
def resize? (items : Array Value) (size : Nat) : Option (Array Value) :=
  if size ≤ items.size then some (items.take size)
  else if size ≤ items.size + growth then
    some (items ++ Array.replicate (size - items.size) .undefined)
  else none

/-- The elements with one written, undefined where there were none before it. -/
def setItem? (items : Array Value) (i : Nat) (v : Value) : Option (Array Value) :=
  if i < items.size then some (items.setIfInBounds i v)
  else (resize? items i).map (·.push v)

end Object

namespace Heap

/-- A member of an object, or of the first object that has it of those it inherits from. -/
def find (heap : Heap) (key : String) : Nat → Nat → Except Fault (Option Slot)
  | 0, _ => throw .exhausted
  | levels + 1, a =>
    let o := heap[a]?.getD {}
    match o.own? key with
    | some s => return some s
    | none =>
      match o.parent with
      | some p => find heap key levels p
      | none => return none

/-- Whether an object is another one or inherits from it. -/
def inheritsFrom (heap : Heap) (other : Nat) : Nat → Nat → Except Fault Bool
  | 0, _ => throw .exhausted
  | levels + 1, a =>
    if a = other then return true
    else
      match (heap[a]?.getD {}).parent with
      | some p => inheritsFrom heap other levels p
      | none => return false

end Heap

namespace Run

/-- A member of an object, its own or an inherited one. -/
def find (key : String) (a : Nat) : Run (Option Slot) := do
  (← get).find key maxNesting a

/-- Whether an object is another one or inherits from it. -/
def inheritsFrom (other a : Nat) : Run Bool := do
  (← get).inheritsFrom other maxNesting a

/-- An address as a value; none is null. -/
def reference : Option Nat → Value
  | some a => .object a
  | none => .null

/-- What an object inherits from. -/
def ancestor (a : Nat) : Run Value := return reference (← load a).parent

/-- Lets an object inherit from another one.  What all objects inherit from cannot be changed, and no
object can inherit from itself. -/
def setAncestor (a : Nat) (p : Option Nat) : Run Unit := do
  if a = Realm.objectPrototype then
    if p.isSome then thrown
  else
    let o ← load a
    match p with
    | none => store a { o with inherits := some p }
    | some b => do
      if ← inheritsFrom a b then thrown
      else store a { o with inherits := some p }

end Run

namespace Value

/-- The value of a member that was found, or undefined. -/
def ofSlot (ancestor : Run Value) : Option Slot → Run Value
  | some (.value v) => return v
  | some (.locked v) => return v
  | some .ancestor => ancestor
  | none => return .undefined

/-- A member that a value which is no object inherits. -/
def inherited (type : Primitive) (key : String) : Run Value := do
  let p := Realm.prototypeOf type
  ofSlot (return .object p) (← Run.find key p)

/-- A member that a text has of its own: its length and its characters. -/
def textMember? (s : String) (key : String) : Option Value :=
  if key = "length" then some (.number (.ofInt (Units.count s)))
  else ((index? key).bind (Units.at? s)).map .text

/-- The value of a member. -/
def getMember (v : Value) (key : String) : Run Value :=
  match v with
  | .undefined => Run.thrown
  | .null => Run.thrown
  | .bool _ => inherited .boolean key
  | .number _ => inherited .number key
  | .text s =>
    match textMember? s key with
    | some v => return v
    | none => inherited .text key
  | .object a => do ofSlot (Run.ancestor a) (← Run.find key a)

/-- The array at an address with other elements. -/
def setItems (a : Nat) (items? : Option (Array Value)) : Run Unit := do
  match items? with
  | some items => do
    let o ← Run.load a
    Run.store a { o with kind := .array items }
  | none => throw .exhausted

/-- The length an array is given, if the value is one. -/
def length? : Value → Option Nat
  | .number (.int i) => if 0 ≤ i ∧ i ≤ maxLength then some i.toNat else none
  | _ => none

/-- Writes a member of an object that is neither the length nor an element of an array.  A locked one
stays as it is, also for the objects that inherit it. -/
def setKept (a : Nat) (key : String) (new : Value) : Run Unit := do
  match ← Run.find key a with
  | some (.locked _) => return ()
  | some .ancestor =>
    match new with
    | .object p => Run.setAncestor a (some p)
    | .null => Run.setAncestor a none
    | _ => return ()
  | _ => do
    let o ← Run.load a
    Run.store a (o.put key new)

/-- Writes a member.  Values that are no objects forget it at once. -/
def setMember (v : Value) (key : String) (new : Value) : Run Unit :=
  match v with
  | .undefined => Run.thrown
  | .null => Run.thrown
  | .object a => do
    let o ← Run.load a
    match o.kind with
    | .array items =>
      if key = "length" then
        match new.length? with
        | some n => setItems a (Object.resize? items n)
        | none => Run.thrown
      else match index? key with
        | some i => setItems a (Object.setItem? items i new)
        | none => setKept a key new
    | _ => setKept a key new
  | _ => return ()

end Value

end ViewDesign.Script
