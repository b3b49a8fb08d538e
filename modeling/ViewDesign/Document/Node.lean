import ViewDesign.Json.Numeral

/-!
# Document trees

What a decoder walks over: the tree of a document as it was written, members in the order of the
text and repeated ones kept.  A text that breaks off or is malformed still has a tree, up to the
place of the fault, where it holds `broken` and ends.  A decoder that reads the tree from left to
right and stops at its first complaint therefore reports what a reader of the text would have met
first.

* `Node`           the tree;
* `Node.ofJson`    the tree of a value that has been read before, members ascending;
* `Node.sound`     no fault anywhere below.
-/

namespace ViewDesign

/-- A scalar of the indentation-based format: its text, whether it was written without quotes, and
the two parts of its tag. -/
structure Scalar where
  text : String
  plain : Bool
  tag : Option (String × String)
deriving Repr, DecidableEq, Inhabited

/-- What stands at one place of a document. -/
inductive Node where
  /-- the text is malformed here -/
  | broken
  | null
  | bool (b : Bool)
  /-- a number known by its value -/
  | number (n : Json.Number)
  /-- a number literal -/
  | numeral (n : Numeral)
  /-- a string; `none` when its escapes do not denote a text -/
  | string (s : Option String)
  | scalar (s : Scalar)
  | sequence (items : List Node)
  | mapping (members : List (Node × Node))
deriving Inhabited

namespace Node

/-! ## Trees of values -/

mutual

/-- The tree of a JSON value. -/
def ofJson : Json → Node
  | .null => .null
  | .bool b => .bool b
  | .num n => .number n
  | .str s => .string (some s)
  | .arr items => .sequence (ofItems items)
  | .obj members => .mapping (ofMembers members)

/-- The trees of the elements of an array. -/
def ofItems : List Json → List Node
  | [] => []
  | v :: rest => ofJson v :: ofItems rest

/-- The trees of the members of an object. -/
def ofMembers : List (String × Json) → List (Node × Node)
  | [] => []
  | (k, v) :: rest => (.string (some k), ofJson v) :: ofMembers rest

end

/-! ## Faults -/

mutual

/-- Whether the tree is free of faults. -/
def sound : Node → Bool
  | .broken => false
  | .sequence items => soundItems items
  | .mapping members => soundMembers members
  | _ => true

/-- Whether all elements are. -/
def soundItems : List Node → Bool
  | [] => true
  | v :: rest => sound v && soundItems rest

/-- Whether all names and values are. -/
def soundMembers : List (Node × Node) → Bool
  | [] => true
  | (k, v) :: rest => sound k && sound v && soundMembers rest

end

end Node

end ViewDesign
