import ViewDesign.Yaml.Scalar

/-!
# Decoding document trees

A decoder takes a tree, walks it from left to right and stops at its first complaint.  One decoder
serves all three dialects; where they differ it asks the context.

* `Context`            dialect, remaining depth and place;
* `Decoder`            a function from a tree to a value or a refusal;
* `Decoder.text`, `Decoder.flag`, `Decoder.count`, `Decoder.number`   single values;
* `Decoder.free`       any JSON value;
* `Decoder.optional`   null as absence;
* `Decoder.list`       sequences, `Decoder.names` maps from names;
* `Decoder.choice`     one of several names.
-/

namespace ViewDesign

/-- Where a decoder stands. -/
structure Context where
  dialect : Dialect
  /-- how many levels may still be entered, if there is a bound -/
  depth : Option Nat
  path : Path
deriving Inhabited

namespace Context

/-- The context of a root. -/
def root (d : Dialect) : Context := ⟨d, d.maxDepth, []⟩

/-- The context of a member. -/
def member (ctx : Context) (name : String) : Context :=
  { ctx with path := .member name :: ctx.path }

/-- The context of an element. -/
def item (ctx : Context) (index : Nat) : Context :=
  { ctx with path := .item index :: ctx.path }

/-- A complaint about the value at this place. -/
def refuse {α : Type} (ctx : Context) (c : Complaint) : Except Refusal α :=
  .error (.refused ctx.path c)

/-- The context inside a sequence or map, one level down. -/
def enter (ctx : Context) : Except Refusal Context :=
  match ctx.depth with
  | none => .ok ctx
  | some 0 => if ctx.dialect = .yaml then ctx.refuse .tooDeep else .error .malformed
  | some (n + 1) => .ok { ctx with depth := some n }

end Context

/-- Reads a value off a tree. -/
def Decoder (α : Type) := Context → Node → Except Refusal α

namespace Decoder

variable {α β : Type}

/-- Applies a function to what is decoded. -/
def map (f : α → β) (d : Decoder α) : Decoder β := fun ctx node => (d ctx node).map f

/-! ## Single values -/

/-- What stands at a place; a fault of the text is found before anything else. -/
def found : Decoder Found := fun ctx node =>
  match node with
  | .broken => .error .malformed
  | .null => .ok .unit
  | .bool b => .ok (.bool b)
  | .number (.int i) => .ok (.int i)
  | .number (.float x) => .ok (.float x)
  | .numeral n =>
    match n.value? with
    | some (.int i) => .ok (.int i)
    | some (.float x) => .ok (.float x)
    | none => .error .malformed
  | .string (some s) => .ok (.text s)
  | .string none => .error .malformed
  | .scalar s =>
    match s.found with
    | .ok f => .ok f
    | .error c => ctx.refuse c
  | .sequence _ => .ok .sequence
  | .mapping _ => .ok .mapping

/-- The complaint that something else was expected here. -/
def mismatch (expected : String) : Decoder α := fun ctx node => do
  ctx.refuse (.unexpectedType (← found ctx node) expected)

/-- A text. Every YAML scalar is one, whatever it looks like. -/
def text : Decoder String := fun ctx node =>
  match node with
  | .string (some s) => .ok s
  | .scalar s => .ok s.text
  | _ => mismatch "a string" ctx node

/-- A truth value. -/
def flag : Decoder Bool := fun ctx node => do
  match ← found ctx node with
  | .bool b => .ok b
  | f => ctx.refuse (.unexpectedType f "a boolean")

/-- A natural of sixty-four bits. -/
def count : Decoder UInt64 := fun ctx node => do
  match ← found ctx node with
  | .int i =>
    if 0 ≤ i then .ok (UInt64.ofNat i.toNat) else ctx.refuse (.unexpectedValue (.int i) "u64")
  | f => ctx.refuse (.unexpectedType f "u64")

/-- A number. -/
def number : Decoder Json.Number := fun ctx node => do
  match ← found ctx node with
  | .int i => .ok (.int i)
  | .float x => .ok (.float x)
  | f => ctx.refuse (.unexpectedType f "f64")

/-- Nothing but null. -/
def unit : Decoder Unit := fun ctx node => do
  match ← found ctx node with
  | .unit => .ok ()
  | f => ctx.refuse (.unexpectedType f "unit")

/-- A value that may be absent, which null says. -/
def optional (d : Decoder α) : Decoder (Option α) := fun ctx node =>
  match node with
  | .null => .ok none
  | .scalar s =>
    match s.isAbsent with
    | .ok true => .ok none
    | .ok false => (d ctx node).map some
    | .error c => ctx.refuse c
  | _ => (d ctx node).map some

/-! ## Names of members -/

/-- The name of a member.  In JSON a name is a string or the text is malformed. -/
def name (expected : String) : Decoder String := fun ctx node =>
  match node with
  | .string (some s) => .ok s
  | .scalar s => .ok s.text
  | _ => if ctx.dialect = .yaml then mismatch expected ctx node else .error .malformed

/-! ## Sequences and maps -/

/-- The elements of a sequence, from the one with a given index. -/
def items (d : Decoder α) (ctx : Context) : Nat → List Node → Except Refusal (List α)
  | _, [] => .ok []
  | i, node :: rest => do
    let a ← d (ctx.item i) node
    return a :: (← items d ctx (i + 1) rest)

/-- A sequence. -/
def list (d : Decoder α) : Decoder (List α) := fun ctx node =>
  match node with
  | .sequence nodes => do items d (← ctx.enter) 0 nodes
  | _ => mismatch "a sequence" ctx node

/-- The members of a map, written one after the other. -/
def entries (d : Decoder α) (ctx : Context) :
    NameMap α → List (Node × Node) → Except Refusal (NameMap α)
  | done, [] => .ok done
  | done, (key, node) :: rest => do
    let k ← name "a string" ctx key
    let a ← d (ctx.member k) node
    entries d ctx (done.insert k a) rest

/-- A map from names. -/
def names (d : Decoder α) : Decoder (NameMap α) := fun ctx node =>
  match node with
  | .mapping members => do entries d (← ctx.enter) .empty members
  | _ => mismatch "a map" ctx node

/-! ## Free values -/

/-- The JSON value of a single value. -/
def freeScalar (ctx : Context) (node : Node) : Except Refusal Json := do
  match ← found ctx node with
  | .unit => .ok .null
  | .bool b => .ok (.bool b)
  | .int i => .ok (.ofInt i)
  | .wide _ => ctx.refuse .numberOutOfRange
  | .float x => .ok (.ofFloat x)
  | .text s => .ok (.str s)
  | .sequence | .mapping => .error .malformed

mutual

/-- Any value. -/
def freeNode (ctx : Context) : Node → Except Refusal Json
  | .sequence nodes => do
    let inner ← ctx.enter
    return .arr (← freeItems inner 0 nodes)
  | .mapping members => do
    let inner ← ctx.enter
    return .object (← freeMembers inner members)
  | .broken => freeScalar ctx .broken
  | .null => freeScalar ctx .null
  | .bool b => freeScalar ctx (.bool b)
  | .number n => freeScalar ctx (.number n)
  | .numeral n => freeScalar ctx (.numeral n)
  | .string s => freeScalar ctx (.string s)
  | .scalar s => freeScalar ctx (.scalar s)

/-- Any elements, from the one with a given index. -/
def freeItems (ctx : Context) (i : Nat) : List Node → Except Refusal (List Json)
  | [] => .ok []
  | node :: rest => do
    let v ← freeNode (ctx.item i) node
    return v :: (← freeItems ctx (i + 1) rest)

/-- Any members. -/
def freeMembers (ctx : Context) : List (Node × Node) → Except Refusal (List (String × Json))
  | [] => .ok []
  | (key, node) :: rest => do
    let k ← name "a string key" ctx key
    let v ← freeNode (ctx.member k) node
    return (k, v) :: (← freeMembers ctx rest)

end

/-- Any JSON value. -/
def free : Decoder Json := freeNode

/-! ## Values of unknown shape -/

mutual

/-- Walks over a value that is set aside before its shape is known. -/
def walkNode (ctx : Context) : Node → Except Refusal Unit
  | .sequence nodes => do walkItems (← ctx.enter) 0 nodes
  | .mapping members => do walkMembers (← ctx.enter) members
  | .broken => walkScalar .broken
  | .null => .ok ()
  | .bool _ => .ok ()
  | .number _ => .ok ()
  | .numeral n => walkScalar (.numeral n)
  | .string s => walkScalar (.string s)
  | .scalar s => walkScalar (.scalar s)
where
  /-- a single value must be in range -/
  walkScalar (node : Node) : Except Refusal Unit := do
    match ← found ctx node with
    | .wide i => ctx.refuse (.unexpectedType (.wide i) "any value")
    | _ => .ok ()

/-- Walks over elements. -/
def walkItems (ctx : Context) (i : Nat) : List Node → Except Refusal Unit
  | [] => .ok ()
  | node :: rest => do
    walkNode (ctx.item i) node
    walkItems ctx (i + 1) rest

/-- Walks over members. -/
def walkMembers (ctx : Context) : List (Node × Node) → Except Refusal Unit
  | [] => .ok ()
  | (key, node) :: rest => do
    if ctx.dialect = .yaml then walkNode ctx key else discard (name "a string" ctx key)
    walkNode ctx node
    walkMembers ctx rest

end

/-- A text among values of any type: unlike `text` it takes no scalar that looks like another. -/
def textOnly? (ctx : Context) (node : Node) : Option String :=
  match found ctx node with
  | .ok (.text s) => some s
  | _ => none

/-! ## Names out of a list -/

/-- The value of a name, or the complaint that there is no such name. -/
def chosen (choices : List (String × α)) (ctx : Context) (s : String) : Except Refusal α :=
  match choices.lookup s with
  | some a => .ok a
  | none => ctx.refuse (.unknownVariant s (choices.map Prod.fst))

/-- A name given as the only member of a map, whose value is null. -/
def chosenMember (choices : List (String × α)) (ctx : Context) :
    List (Node × Node) → Except Refusal α
  | [] =>
    if ctx.dialect = .value then ctx.refuse (.unexpectedValue .mapping "map with a single key")
    else .error .malformed
  | (key, node) :: rest =>
    match ctx.dialect with
    | .text => do
      let inner ← ctx.enter
      let s ← match key with
        | .string (some s) => .ok s
        | _ => mismatch "variant identifier" ctx key
      let a ← chosen choices ctx s
      unit inner node
      if rest.isEmpty then return a else .error .malformed
    | .value =>
      if rest.isEmpty then do
        let a ← chosen choices ctx (← name "variant identifier" ctx key)
        unit ctx node
        return a
      else ctx.refuse (.unexpectedValue .mapping "map with a single key")
    | .yaml => do
      let s ← match key with
        | .scalar s => .ok s.text
        | _ => mismatch "variant identifier" ctx key
      let a ← chosen choices ctx s
      unit (ctx.member s) node
      if rest.isEmpty then return a
      else ctx.refuse (.wrongLength (rest.length + 1) "map containing 1 entry")

/-- One of several names, as a text or as the only member of a map. -/
def choice (choices : List (String × α)) : Decoder α := fun ctx node =>
  match node with
  | .string (some s) => chosen choices ctx s
  | .scalar s => chosen choices ctx s.text
  | .mapping members => chosenMember choices ctx members
  | _ =>
    match ctx.dialect with
    | .text => .error .malformed
    | .value => mismatch "string or map" ctx node
    | .yaml => mismatch "string or singleton map" ctx node

end Decoder

end ViewDesign
