import ViewDesign.Script.Heap

/-!
# The objects that are there from the start

Before a script runs, the heap holds the object `JSON`, what objects, functions, arrays, texts,
numbers and truth values inherit from, and the functions that are members of these.  They are objects
like any other: a script that gets hold of one may give it members, and finds them there later.

* `Realm.methods`    the functions, each with the object it is a member of;
* `Realm.natives`    the objects;
* `Realm.heap`       the heap before a script runs;
* `Untouched`        they are as they were at the start.
-/

namespace ViewDesign.Script

/-- The members that a function has from the start: the number of its parameters and its name. -/
def functionSlots (name : String) (parameters : Nat) : List (String × Slot) :=
  [("length", .locked (.number (.ofInt parameters))), ("name", .locked (.text name))]

/-- A function that a script has made. -/
def Object.ofClosure (name : String) (c : Closure) : Object :=
  { kind := .function c, hidden := functionSlots name c.parameters.length }

/-- A function that is there from the start. -/
def Object.ofBuiltin (name : String) (parameters : Nat) (b : Builtin) : Object :=
  { kind := .native b, hidden := functionSlots name parameters }

namespace Realm

/-! ## Functions -/

/-- The functions that make objects follow what these inherit from. -/
def constructors : List (String × Nat × Nat) :=
  [("Object", 1, objectPrototype), ("Function", 1, functionPrototype), ("Array", 1, arrayPrototype),
    ("String", 1, prototypeOf .text), ("Number", 1, prototypeOf .number),
    ("Boolean", 1, prototypeOf .boolean)]

/-- The address of the first of them. -/
def firstConstructor : Nat := 10

/-- A function that is a member of another object from the start. -/
structure Method where
  owner : Nat
  name : String
  parameters : Nat
  does : Builtin := .other

/-- The functions whose effect is described. -/
def describedMethods : List Method :=
  [⟨objectPrototype, "hasOwnProperty", 1, .hasOwn⟩, ⟨objectPrototype, "toString", 0, .kindText⟩,
    ⟨objectPrototype, "valueOf", 0, .itself⟩, ⟨arrayPrototype, "join", 1, .join⟩,
    ⟨arrayPrototype, "push", 1, .push⟩, ⟨arrayPrototype, "toString", 0, .arrayText⟩,
    ⟨functionPrototype, "toString", 0, .functionText⟩,
    ⟨prototypeOf .text, "toString", 0, .text .text⟩,
    ⟨prototypeOf .text, "valueOf", 0, .value .text⟩,
    ⟨prototypeOf .number, "toString", 1, .text .number⟩,
    ⟨prototypeOf .number, "valueOf", 0, .value .number⟩,
    ⟨prototypeOf .boolean, "toString", 0, .text .boolean⟩,
    ⟨prototypeOf .boolean, "valueOf", 0, .value .boolean⟩]

/-- The other functions, by the object they are members of: names and numbers of parameters. -/
def otherMethods : List (Nat × List (String × Nat)) :=
  [(objectPrototype, [("__defineGetter__", 2), ("__defineSetter__", 2), ("__lookupGetter__", 1),
      ("__lookupSetter__", 1), ("isPrototypeOf", 1), ("propertyIsEnumerable", 1),
      ("toLocaleString", 0)]),
    (functionPrototype, [("apply", 2), ("bind", 1), ("call", 1)]),
    (arrayPrototype, [("concat", 1), ("copyWithin", 2), ("entries", 0), ("every", 1), ("fill", 1),
      ("filter", 1), ("find", 1), ("findIndex", 1), ("flat", 0), ("flatMap", 1), ("forEach", 1),
      ("includes", 1), ("indexOf", 1), ("keys", 0), ("lastIndexOf", 1), ("map", 1), ("pop", 0),
      ("reduce", 1), ("reduceRight", 1), ("reverse", 0), ("shift", 0), ("slice", 2), ("some", 1),
      ("sort", 1), ("splice", 2), ("toLocaleString", 0), ("unshift", 1), ("values", 0)]),
    (prototypeOf .text, [("anchor", 1), ("big", 0), ("blink", 0), ("bold", 0), ("charAt", 1),
      ("charCodeAt", 1), ("codePointAt", 1), ("concat", 1), ("endsWith", 1), ("fixed", 0),
      ("fontcolor", 1), ("fontsize", 1), ("includes", 1), ("indexOf", 1), ("italics", 0),
      ("lastIndexOf", 1), ("link", 1), ("localeCompare", 1), ("match", 1), ("matchAll", 1),
      ("normalize", 0), ("padEnd", 1), ("padStart", 1), ("repeat", 1), ("replace", 2),
      ("replaceAll", 2), ("search", 1), ("slice", 2), ("small", 0), ("split", 2),
      ("startsWith", 1), ("strike", 0), ("sub", 0), ("substr", 2), ("substring", 2), ("sup", 0),
      ("toLocaleLowerCase", 0), ("toLocaleUpperCase", 0), ("toLowerCase", 0), ("toUpperCase", 0),
      ("trim", 0), ("trimEnd", 0), ("trimStart", 0)]),
    (prototypeOf .number, [("toExponential", 1), ("toFixed", 1), ("toLocaleString", 0),
      ("toPrecision", 1)]),
    -- members of the functions that make objects
    (firstConstructor, [("assign", 2), ("create", 2), ("defineProperties", 2),
      ("defineProperty", 3), ("entries", 1), ("freeze", 1), ("fromEntries", 1),
      ("getOwnPropertyDescriptor", 2), ("getOwnPropertyDescriptors", 1),
      ("getOwnPropertyNames", 1), ("getOwnPropertySymbols", 1), ("getPrototypeOf", 1), ("is", 2),
      ("isExtensible", 1), ("isFrozen", 1), ("isSealed", 1), ("keys", 1),
      ("preventExtensions", 1), ("seal", 1), ("setPrototypeOf", 2), ("values", 1)]),
    (firstConstructor + 2, [("from", 1), ("isArray", 1), ("of", 0)]),
    (firstConstructor + 3, [("fromCharCode", 1), ("fromCodePoint", 1), ("raw", 1)]),
    (firstConstructor + 4, [("isFinite", 1), ("isInteger", 1), ("isNaN", 1), ("isSafeInteger", 1),
      ("parseFloat", 1), ("parseInt", 2)])]

/-- All functions that are members of other objects. -/
def methods : List Method :=
  describedMethods ++
    otherMethods.flatMap fun (owner, ms) => ms.map fun (name, n) => { owner, name, parameters := n }

/-- The address of the first of them. -/
def firstMethod : Nat := firstConstructor + constructors.length

/-- The functions that are members of an object. -/
def methodsOf (owner : Nat) : List (String × Slot) :=
  methods.zipIdx.filterMap fun (m, i) =>
    if m.owner = owner then some (m.name, .value (.object (firstMethod + i))) else none

/-! ## Objects -/

/-- The numbers that are members of the function `Number`. -/
def numberConstants : List (String × Slot) :=
  [("EPSILON", .locked (.number (.double 2.220446049250313e-16))),
    ("MAX_SAFE_INTEGER", .locked (.number (.int 9007199254740991))),
    ("MAX_VALUE", .locked (.number (.double 1.7976931348623157e308))),
    ("MIN_SAFE_INTEGER", .locked (.number (.int (-9007199254740991)))),
    ("MIN_VALUE", .locked (.number (.double 5e-324))), ("NaN", .locked (.number .nan)),
    ("NEGATIVE_INFINITY", .locked (.number (.double (-1 / 0)))),
    ("POSITIVE_INFINITY", .locked (.number .infinity))]

/-- The members of an object that others inherit from. -/
def prototypeSlots (address maker : Nat) : List (String × Slot) :=
  ("constructor", .value (.object maker)) :: methodsOf address

/-- The objects that others inherit from. -/
def prototypes : List Object :=
  [{ inherits := some none,
     hidden := ("__proto__", .ancestor) :: prototypeSlots objectPrototype firstConstructor },
    { kind := .native .other, inherits := some (some objectPrototype),
      hidden := functionSlots "" 0 ++ prototypeSlots functionPrototype (firstConstructor + 1) },
    { kind := .array #[], inherits := some (some objectPrototype),
      hidden := prototypeSlots arrayPrototype (firstConstructor + 2) },
    { kind := .wrapped (.text ""),
      hidden := ("length", .locked (.number (.int 0))) ::
        prototypeSlots (prototypeOf .text) (firstConstructor + 3) },
    { kind := .wrapped (.number (.int 0)),
      hidden := prototypeSlots (prototypeOf .number) (firstConstructor + 4) },
    { kind := .wrapped (.bool false),
      hidden := prototypeSlots (prototypeOf .boolean) (firstConstructor + 5) }]

/-- The function that makes objects which inherit from one of them. -/
def constructorObject (address : Nat) : String × Nat × Nat → Object
  | (name, n, prototype) =>
    { kind := .native .other,
      hidden := functionSlots name n ++ ("prototype", .locked (.object prototype)) ::
        methodsOf address ++ if name = "Number" then numberConstants else [] }

/-- The object `JSON` and its functions. -/
def jsonObjects : List Object :=
  [{ kind := .json, hidden := [("parse", .value (.object 2)), ("stringify", .value (.object 3))] },
    .ofBuiltin "parse" 2 .parse, .ofBuiltin "stringify" 3 .stringify]

/-- The objects at the addresses from the one of `JSON` on. -/
def natives : List Object :=
  jsonObjects ++ prototypes ++
    (constructors.zipIdx.map fun (c, i) => constructorObject (firstConstructor + i) c) ++
    methods.map fun m => .ofBuiltin m.name m.parameters m.does

/-- A heap with nothing but these objects and the global variables. -/
def heapWith (globals : Object) : Heap := (globals :: natives).toArray

/-- The heap before a script runs. -/
def heap : Heap := heapWith {}

/-- The number of objects in it. -/
def size : Nat := natives.length + 1

end Realm

/-- The objects that are there from the start are as they were. -/
def Untouched (K : Heap) : Prop := ∀ a, 0 < a → a < Realm.size → K[a]? = Realm.heap[a]?

end ViewDesign.Script
