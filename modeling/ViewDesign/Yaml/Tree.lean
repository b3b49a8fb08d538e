import ViewDesign.Yaml.Token

/-!
# YAML documents

`documents` turns a list of tokens into the trees of its documents.  Each function reads one
production from the front of the tokens; a missing value is the plain scalar `~`.  Anchors are
numbered as they come, so that a later anchor of the same name hides an earlier one, and an alias is
replaced by the tree of its anchor.
-/

namespace ViewDesign.Yaml

/-- The anchors of a document. -/
structure Anchors where
  /-- names and numbers, the latest first -/
  numbers : List (String × Nat) := []
  /-- the trees of the anchors that are complete -/
  trees : List (Nat × Node) := []
deriving Inhabited

namespace Anchors

/-- Registers an anchor and gives its number. -/
def register (a : Anchors) (name : String) : Nat × Anchors :=
  let n := a.numbers.length
  (n, { a with numbers := (name, n) :: a.numbers })

/-- Notes the tree of an anchor. -/
def complete (a : Anchors) (n : Option Nat) (tree : Node) : Anchors :=
  match n with
  | some n => { a with trees := (n, tree) :: a.trees }
  | none => a

/-- The tree an alias stands for. -/
def resolve? (a : Anchors) (name : String) : Option Node := do
  a.trees.lookup (← a.numbers.lookup name)

end Anchors

/-- What a production read from the front of the tokens: its meaning, the anchors known after it,
and the tokens that follow. -/
abbrev Reading (α : Type) := α × Anchors × List Token

/-- The value of a place where nothing is written. -/
def missing : Node := .scalar ⟨"~", true, none⟩

/-- An anchor and a tag before a node, in either order. -/
def properties (a : Anchors) :
    List Token → Option Nat × Option (String × String) × Anchors × List Token
  | .anchor name :: .tag h s :: rest =>
    let (n, a) := a.register name
    (some n, some (h, s), a, rest)
  | .anchor name :: rest =>
    let (n, a) := a.register name
    (some n, none, a, rest)
  | .tag h s :: .anchor name :: rest =>
    let (n, a) := a.register name
    (some n, some (h, s), a, rest)
  | .tag h s :: rest => (none, some (h, s), a, rest)
  | rest => (none, none, a, rest)

mutual

/-- A node. Block collections are taken only where `block` says so, and entries without indentation
of their own only where `indentless` says so. -/
def node : Nat → Bool → Bool → Anchors → List Token → Option (Reading Node)
  | 0, _, _, _, _ => none
  | steps + 1, block, indentless, a, tokens =>
    match tokens with
    | .alias name :: rest => (a.resolve? name).map fun tree => (tree, a, rest)
    | tokens =>
      let (number, tag, a, rest) := properties a tokens
      let finish (p : Option (Reading Node)) : Option (Reading Node) :=
        p.map fun (tree, a, rest) => (tree, a.complete number tree, rest)
      match rest with
      | .scalar plain text :: rest => finish (some (.scalar ⟨text, plain, tag⟩, a, rest))
      | .flowSequenceStart :: rest =>
        finish ((flowItems steps true a rest).map fun (items, r) => (.sequence items, r))
      | .flowMappingStart :: rest =>
        finish ((flowMembers steps true a rest).map fun (members, r) => (.mapping members, r))
      | .blockEntry :: _ =>
        if indentless then
          finish ((indentlessItems steps a rest).map fun (items, r) => (.sequence items, r))
        else if number.isSome || tag.isSome then finish (some (.scalar ⟨"", true, tag⟩, a, rest))
        else none
      | .blockSequenceStart :: inner =>
        if block then
          finish ((blockItems steps a inner).map fun (items, r) => (.sequence items, r))
        else if number.isSome || tag.isSome then finish (some (.scalar ⟨"", true, tag⟩, a, rest))
        else none
      | .blockMappingStart :: inner =>
        if block then
          finish ((blockMembers steps a inner).map fun (members, r) => (.mapping members, r))
        else if number.isSome || tag.isSome then finish (some (.scalar ⟨"", true, tag⟩, a, rest))
        else none
      | rest =>
        if number.isSome || tag.isSome then finish (some (.scalar ⟨"", true, tag⟩, a, rest))
        else none

/-- The entries of a block sequence up to its end. -/
def blockItems : Nat → Anchors → List Token → Option (Reading (List Node))
  | 0, _, _ => none
  | steps + 1, a, tokens =>
    match tokens with
    | .blockEnd :: rest => some ([], a, rest)
    | .blockEntry :: rest => do
      let (item, a, rest) ← match rest with
        | .blockEntry :: _ => some (missing, a, rest)
        | .blockEnd :: _ => some (missing, a, rest)
        | _ => node steps true false a rest
      let (items, a, rest) ← blockItems steps a rest
      return (item :: items, a, rest)
    | _ => none

/-- The entries of a sequence that shares the indentation of its key. -/
def indentlessItems : Nat → Anchors → List Token → Option (Reading (List Node))
  | 0, _, _ => none
  | steps + 1, a, tokens =>
    match tokens with
    | .blockEntry :: rest => do
      let (item, a, rest) ← match rest with
        | .blockEntry :: _ => some (missing, a, rest)
        | .key :: _ => some (missing, a, rest)
        | .value :: _ => some (missing, a, rest)
        | .blockEnd :: _ => some (missing, a, rest)
        | _ => node steps true false a rest
      let (items, a, rest) ← indentlessItems steps a rest
      return (item :: items, a, rest)
    | rest => some ([], a, rest)

/-- A key or value of a block mapping, after its mark. -/
def blockPart : Nat → Anchors → List Token → Option (Reading Node)
  | 0, _, _ => none
  | steps + 1, a, tokens =>
    match tokens with
    | .key :: _ => some (missing, a, tokens)
    | .value :: _ => some (missing, a, tokens)
    | .blockEnd :: _ => some (missing, a, tokens)
    | _ => node steps true true a tokens

/-- The value of a block mapping, if there is one. -/
def blockValue : Nat → Anchors → List Token → Option (Reading Node)
  | 0, _, _ => none
  | steps + 1, a, tokens =>
    match tokens with
    | .value :: rest => blockPart steps a rest
    | _ => some (missing, a, tokens)

/-- The members of a block mapping up to its end. -/
def blockMembers : Nat → Anchors → List Token → Option (Reading (List (Node × Node)))
  | 0, _, _ => none
  | steps + 1, a, tokens => do
    match tokens with
    | .blockEnd :: rest => some ([], a, rest)
    | .key :: rest =>
      let (k, a, rest) ← blockPart steps a rest
      let (v, a, rest) ← blockValue steps a rest
      let (members, a, rest) ← blockMembers steps a rest
      return ((k, v) :: members, a, rest)
    | .value :: _ =>
      let (v, a, rest) ← blockValue steps a tokens
      let (members, a, rest) ← blockMembers steps a rest
      return ((missing, v) :: members, a, rest)
    | _ => none

/-- The elements of a flow sequence up to its end; `first` when no element came before. -/
def flowItems : Nat → Bool → Anchors → List Token → Option (Reading (List Node))
  | 0, _, _, _ => none
  | steps + 1, first, a, tokens => do
    let tokens ← match tokens with
      | .flowSequenceEnd :: _ => some tokens
      | .flowEntry :: rest => some (if first then tokens else rest)
      | _ => if first then some tokens else none
    match tokens with
    | .flowSequenceEnd :: rest => some ([], a, rest)
    | .key :: rest =>
      let (item, a, rest) ← flowPair steps a rest
      let (items, a, rest) ← flowItems steps false a rest
      return (item :: items, a, rest)
    | _ =>
      let (item, a, rest) ← node steps false false a tokens
      let (items, a, rest) ← flowItems steps false a rest
      return (item :: items, a, rest)

/-- A single member that stands as an element of a flow sequence. -/
def flowPair : Nat → Anchors → List Token → Option (Reading Node)
  | 0, _, _ => none
  | steps + 1, a, tokens => do
    let (k, a, rest) ← match tokens with
      | .value :: rest => some (missing, a, rest)
      | .flowEntry :: rest => some (missing, a, rest)
      | .flowSequenceEnd :: rest => some (missing, a, rest)
      | _ => node steps false false a tokens
    let (v, a, rest) ← match rest with
      | .value :: rest =>
        match rest with
        | .flowEntry :: _ => some (missing, a, rest)
        | .flowSequenceEnd :: _ => some (missing, a, rest)
        | _ => node steps false false a rest
      | _ => some (missing, a, rest)
    return (.mapping [(k, v)], a, rest)

/-- The members of a flow mapping up to its end; `first` when no member came before. -/
def flowMembers : Nat → Bool → Anchors → List Token → Option (Reading (List (Node × Node)))
  | 0, _, _, _ => none
  | steps + 1, first, a, tokens => do
    let tokens ← match tokens with
      | .flowMappingEnd :: _ => some tokens
      | .flowEntry :: rest => some (if first then tokens else rest)
      | _ => if first then some tokens else none
    match tokens with
    | .flowMappingEnd :: rest => some ([], a, rest)
    | .key :: rest =>
      let (k, a, rest) ← match rest with
        | .value :: _ => some (missing, a, rest)
        | .flowEntry :: _ => some (missing, a, rest)
        | .flowMappingEnd :: _ => some (missing, a, rest)
        | _ => node steps false false a rest
      let (v, a, rest) ← flowValue steps a rest
      let (members, a, rest) ← flowMembers steps false a rest
      return ((k, v) :: members, a, rest)
    | .value :: _ =>
      let (v, a, rest) ← flowValue steps a tokens
      let (members, a, rest) ← flowMembers steps false a rest
      return ((missing, v) :: members, a, rest)
    | _ =>
      let (k, a, rest) ← node steps false false a tokens
      let (members, a, rest) ← flowMembers steps false a rest
      return ((k, missing) :: members, a, rest)

/-- The value of a flow mapping, if there is one. -/
def flowValue : Nat → Anchors → List Token → Option (Reading Node)
  | 0, _, _ => none
  | steps + 1, a, tokens =>
    match tokens with
    | .value :: rest =>
      match rest with
      | .flowEntry :: _ => some (missing, a, rest)
      | .flowMappingEnd :: _ => some (missing, a, rest)
      | _ => node steps false false a rest
    | _ => some (missing, a, tokens)

end

/-! ## Documents -/

/-- A bound on the number of productions in a list of tokens. -/
def productionFuel (tokens : List Token) : Nat := 4 * tokens.length + 4

/-- Whether no content can follow before the next document. -/
def atDocumentEnd : List Token → Bool
  | [] => true
  | t :: _ => t == .documentStart || t == .documentEnd || t == .directive

/-- The content of a document after its start mark. -/
def content (tokens : List Token) : Option (Node × List Token) :=
  if atDocumentEnd tokens then some (missing, tokens)
  else (node (productionFuel tokens) true false {} tokens).map fun (tree, _, rest) => (tree, rest)

/-- The content of a document without a start mark. -/
def bareContent (tokens : List Token) : Option (Node × List Token) :=
  (node (productionFuel tokens) true false {} tokens).map fun (tree, _, rest) => (tree, rest)

/-- Drops one end mark. -/
def dropEnd : List Token → List Token
  | .documentEnd :: rest => rest
  | rest => rest

/-- The documents of a list of tokens; only the first may lack its start mark. -/
def documentsFrom : Nat → Bool → List Token → Option (List Node)
  | 0, _, _ => none
  | steps + 1, first, tokens => do
    let tokens := if first then tokens else tokens.dropWhile (· == .documentEnd)
    match tokens with
    | [] => return []
    | t :: _ =>
      let (tree, rest) ←
        if first && t != .documentStart && t != .directive then bareContent tokens
        else match tokens.dropWhile (· == .directive) with
          | .documentStart :: rest => content rest
          | _ => none
      return tree :: (← documentsFrom steps false (dropEnd rest))

/-- The trees of the documents in a text, `none` for a text with a fault. -/
def documents (text : String) : Option (List Node) := do
  let tokens ← Token.scan text
  documentsFrom (tokens.length + 1) true tokens

end ViewDesign.Yaml
