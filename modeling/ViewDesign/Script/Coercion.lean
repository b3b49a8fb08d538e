import ViewDesign.Script.Lexing
import ViewDesign.Script.Member

/-!
# Values as other values

An operator converts what it is given: an object becomes a primitive value by its own `valueOf` and
`toString`, a primitive value becomes a number or a text.  The functions an object brings along are
called through a `Caller`, so that nothing here depends on how a call is carried out.

* `Value.primitive`       an object as a primitive value;
* `Value.kindText`, `Value.join`    what the functions give that convert objects unless a script
                          brings its own;
* `Value.textual`, `Value.numeric`, `Value.truth`   the three conversions;
* `Value.same`, `Value.equal`, `Value.compare`      comparisons;
* `Value.add`             the sum, of texts or of numbers.
-/

namespace ViewDesign.Script

/-- How a function is called: with a receiver, itself and the arguments. -/
abbrev Caller := Value → Value → List Value → Run Value

namespace Value

/-! ## Primitive values -/

/-- Whether a value counts as true. -/
def truth : Value → Bool
  | .undefined => false
  | .null => false
  | .bool b => b
  | .number n => n.truth
  | .text s => !s.isEmpty
  | .object _ => true

/-- Whether a value is neither an object nor a function. -/
def isPrimitive : Value → Bool
  | .object _ => false
  | _ => true

/-- Whether a character may surround a number in a text. -/
def isSpace (c : Char) : Bool := isBlank c || isLineBreak c

/-- A text without the blanks around it. -/
def trimmed (cs : List Char) : List Char :=
  ((cs.dropWhile isSpace).reverse.dropWhile isSpace).reverse

/-- The number of a text without blanks and sign. -/
def unsignedNumber? (cs : List Char) : Option Number :=
  if cs = "Infinity".toList then some .infinity else (Decimal.read? cs).map .ofDecimal

/-- The number of a text without blanks: nothing is zero, and only a decimal may have a sign. -/
def number? : List Char → Option Number
  | [] => some (.int 0)
  | '-' :: r => (unsignedNumber? r).map Number.neg
  | '+' :: r => unsignedNumber? r
  | '0' :: c :: r =>
    if c = 'x' ∨ c = 'X' then wholeNumber? 16 r
    else if c = 'o' ∨ c = 'O' then wholeNumber? 8 r
    else if c = 'b' ∨ c = 'B' then wholeNumber? 2 r
    else unsignedNumber? ('0' :: c :: r)
  | cs => unsignedNumber? cs

/-- The number a text denotes; what is no number is not-a-number. -/
def textNumber (s : String) : Number := (number? (trimmed s.toList)).getD .nan

/-- The number of a primitive value. -/
def toNumber : Value → Number
  | .undefined => .nan
  | .null => .int 0
  | .bool b => .int (if b then 1 else 0)
  | .number n => n
  | .text s => textNumber s
  | .object _ => .nan

/-- The text of a primitive value. -/
def toText : Value → String
  | .undefined => "undefined"
  | .null => "null"
  | .bool b => if b then "true" else "false"
  | .number n => n.text
  | .text s => s
  | .object _ => "[object Object]"

/-! ## Objects -/

/-- Whether a value can be called. -/
def isFunction : Value → Run Bool
  | .object a => do
    match (← Run.load a).kind with
    | .function _ => return true
    | .native _ => return true
    | _ => return false
  | _ => return false

/-- The result of the first of some members that is a function and gives a primitive value. -/
def firstPrimitive (call : Caller) (v : Value) : List String → Run Value
  | [] => Run.thrown
  | name :: rest => do
    let f ← v.getMember name
    if ← f.isFunction then
      let r ← call v f []
      if r.isPrimitive then return r else firstPrimitive call v rest
    else firstPrimitive call v rest

/-- A value as a primitive one; an object is asked for a text or for a value first. -/
def primitive (call : Caller) (textFirst : Bool) (v : Value) : Run Value :=
  if v.isPrimitive then return v
  else
    firstPrimitive call v
      (if textFirst then ["toString", "valueOf"] else ["valueOf", "toString"])

/-- A value as a text. -/
def textual (call : Caller) (v : Value) : Run String := return (← v.primitive call true).toText

/-- A value as a number. -/
def numeric (call : Caller) (v : Value) : Run Number := return (← v.primitive call false).toNumber

/-- The type of a value that is no object. -/
def type? : Value → Option Primitive
  | .text _ => some .text
  | .number _ => some .number
  | .bool _ => some .boolean
  | _ => none

/-- A value of a type, given as such or by an object that stands for it. -/
def ofType (type : Primitive) (v : Value) : Run Value :=
  match v with
  | .object a => do
    match (← Run.load a).kind with
    | .wrapped w => if w.type? = some type then return w else Run.thrown
    | _ => Run.thrown
  | v => if v.type? = some type then return v else Run.thrown

/-- The name of the kind of a value that is no object. -/
def kindName : Value → String
  | .undefined => "Undefined"
  | .null => "Null"
  | .bool _ => "Boolean"
  | .number _ => "Number"
  | .text _ => "String"
  | .object _ => "Object"

end Value

/-- The name of a kind of objects. -/
def Kind.name : Kind → String
  | .plain => "Object"
  | .json => "JSON"
  | .array _ => "Array"
  | .function _ => "Function"
  | .native _ => "Function"
  | .wrapped v => v.kindName

namespace Value

/-- The text that tells what kind of value it is. -/
def kindText (v : Value) : Run String :=
  match v with
  | .object a => return "[object " ++ (← Run.load a).kind.name ++ "]"
  | v => return "[object " ++ v.kindName ++ "]"

/-- The names of so many elements. -/
def indexNames (n : Nat) : List String :=
  (List.range n).map fun i => String.ofList (Decimal.digitsOf i)

/-- The text of an element, nothing if it is null or undefined. -/
def elementText (call : Caller) (v : Value) : Run String :=
  match v with
  | .undefined => return ""
  | .null => return ""
  | v => v.textual call

/-- What is put between elements: a comma, unless something else is given. -/
def separatorText (call : Caller) (v : Value) : Run String :=
  match v with
  | .undefined => return ","
  | v => v.textual call

/-- The texts of the elements of an array as one. -/
def join (call : Caller) (v separator : Value) : Run String :=
  match v with
  | .object a => do
    match (← Run.load a).kind with
    | .array items => do
      let between ← separator.separatorText call
      let texts ← (indexNames items.size).mapM fun key => do
        elementText call (← v.getMember key)
      return between.intercalate texts
    | _ => throw .unknown
  | .undefined => Run.thrown
  | .null => Run.thrown
  | _ => throw .unknown

/-- The text of an array: that of its elements, unless it brings another way to join them. -/
def arrayText (call : Caller) (v : Value) : Run Value := do
  let f ← v.getMember "join"
  if ← f.isFunction then call v f []
  else return .text (← v.kindText)

/-- The text of a function.  What it was made from is not kept, so they all have the same. -/
def functionText (v : Value) : Run String := do
  if ← v.isFunction then return "function () \x7b [native code] \x7d" else Run.thrown

/-- Whether a value has a member of its own. -/
def hasOwn (v : Value) (key : String) : Run Bool :=
  match v with
  | .undefined => Run.thrown
  | .null => Run.thrown
  | .text s => return (textMember? s key).isSome
  | .object a => return ((← Run.load a).own? key).isSome
  | _ => return false

/-- What a value is called. -/
def typeName (v : Value) : Run String :=
  match v with
  | .undefined => return "undefined"
  | .null => return "object"
  | .bool _ => return "boolean"
  | .number _ => return "number"
  | .text _ => return "string"
  | v => do return if ← v.isFunction then "function" else "object"

/-! ## Comparisons -/

/-- Equality without conversion. -/
def same : Value → Value → Bool
  | .undefined, .undefined => true
  | .null, .null => true
  | .bool a, .bool b => a == b
  | .number x, .number y => x.eq y
  | .text s, .text t => s == t
  | .object a, .object b => a == b
  | _, _ => false

/-- Whether a value is null or undefined. -/
def isNothing : Value → Bool
  | .undefined => true
  | .null => true
  | _ => false

/-- Equality of primitive values: null and undefined are equal, texts are compared as texts, and all
else as numbers. -/
def equalPrimitive (v w : Value) : Bool :=
  if v.isNothing || w.isNothing then v.isNothing && w.isNothing
  else match v, w with
    | .text s, .text t => s == t
    | v, w => v.toNumber.eq w.toNumber

/-- Equality after conversion.  Two objects are equal only if they are the same. -/
def equal (call : Caller) (v w : Value) : Run Bool := do
  if v.isNothing || w.isNothing then return v.isNothing && w.isNothing
  else if !v.isPrimitive && !w.isPrimitive then return v.same w
  else
    let v ← v.primitive call false
    let w ← w.primitive call false
    return v.equalPrimitive w

/-- A comparison: of texts if both sides are texts, else of numbers. -/
def compare (call : Caller) (texts : String → String → Bool) (numbers : Number → Number → Bool)
    (v w : Value) : Run Bool := do
  let v ← v.primitive call false
  let w ← w.primitive call false
  match v, w with
  | .text s, .text t => return texts s t
  | v, w => return numbers v.toNumber w.toNumber

/-- The sum: a text if one of the sides is, else a number. -/
def add (call : Caller) (v w : Value) : Run Value := do
  let v ← v.primitive call false
  let w ← w.primitive call false
  match v, w with
  | .text s, w => return .text (s ++ w.toText)
  | v, .text t => return .text (v.toText ++ t)
  | v, w => return .number (v.toNumber.add w.toNumber)

/-- An operation on numbers. -/
def arithmetic (call : Caller) (f : Number → Number → Number) (v w : Value) : Run Value := do
  let x ← v.numeric call
  let y ← w.numeric call
  return .number (f x y)

end Value

/-- What an operator makes of its two sides. -/
def BinaryOp.apply (call : Caller) (op : BinaryOp) (v w : Value) : Run Value :=
  match op with
  | .add => v.add call w
  | .subtract => v.arithmetic call .sub w
  | .multiply => v.arithmetic call .mul w
  | .divide => v.arithmetic call .div w
  | .remainder => v.arithmetic call .mod w
  | .less => return .bool (← v.compare call Units.less Number.lt w)
  | .lessEqual => return .bool (← v.compare call (fun s t => !Units.less t s) Number.le w)
  | .greater => return .bool (← v.compare call (fun s t => Units.less t s) (fun x y => y.lt x) w)
  | .greaterEqual =>
    return .bool (← v.compare call (fun s t => !Units.less s t) (fun x y => y.le x) w)
  | .equal => return .bool (← v.equal call w)
  | .notEqual => return .bool !(← v.equal call w)
  | .same => return .bool (v.same w)
  | .notSame => return .bool !(v.same w)

/-- What an operator makes of a value. -/
def UnaryOp.apply (call : Caller) (op : UnaryOp) (v : Value) : Run Value :=
  match op with
  | .not => return .bool !v.truth
  | .negate => return .number (← v.numeric call).neg
  | .number => return .number (← v.numeric call)

end ViewDesign.Script
