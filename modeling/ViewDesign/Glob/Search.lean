import ViewDesign.Files

/-!
# Finding the files of a pattern

A pattern is searched component by component.  A component without wildcards is looked up; any
other is compared with the names in a directory, in ascending order.  `**` stands for the entries of
a directory and of all directories below it, each directory before its content.  A directory that
cannot be listed stands where its content would be.

* `Search`         a pattern, checked and cut into components;
* `Search.ofText`  checks and cuts a pattern;
* `Search.run`     the paths that fit, in order.
-/

namespace ViewDesign.Glob

/-- A pattern ready for a search. -/
structure Search where
  /-- where the search starts: the root or the working directory -/
  start : String
  components : List (List Piece)
  /-- only directories fit -/
  onlyDirectories : Bool
deriving Repr, Inhabited

namespace Search

/-- The components of a path, without the empty one after a final separator. -/
def cut (text : List Char) : List (List Char) :=
  match text with
  | [] => []
  | _ =>
    let parts := PathName.parts (String.ofList text)
    if parts.getLast? = some [] then parts.dropLast else parts

/-- Checks a pattern as a whole, then each of its components. -/
def ofText (text : String) : Except Fault Search := do
  discard (parse text)
  let cs := text.toList
  let rooted := PathName.isAbsolute text
  let rest := if rooted then cs.drop 1 else cs
  let components ← (cut rest).mapM fun part => parse (String.ofList part)
  return {
    start := if rooted then "/" else "."
    components := if rest.isEmpty then components ++ [[]] else components
    onlyDirectories := cs.getLast? = some '/' }

/-- Whether a component stands for directories at any depth. -/
def isRecursive (component : List Piece) : Bool := component.contains .anyDirectories

/-- A directory that cannot be listed, and why. -/
structure Unlisted where
  path : String
  fault : ReadFault
deriving Repr, DecidableEq, Inhabited

/-- What a search comes upon: a path that fits, or a directory that cannot be listed. -/
abbrev Hit := Except Unlisted String

/-- What remains to be looked at. -/
inductive Candidate where
  /-- a path, and the components that it still has to pass; `none` when it has passed all -/
  | place (path : String) (remaining : Option (List (List Piece)))
  /-- nothing more can be found here -/
  | unlisted (u : Unlisted)

variable {m : Type → Type} [Monad m]

/-- Whether there is a directory at a path. -/
def isDirectory (files : Files m) (path : String) : m Bool := do
  return (← files.kind? path) = some .directory

/-- A name below a directory; names below the working directory stand alone. -/
def below (directory name : String) : String :=
  if PathName.isHere directory then name else PathName.join directory name

/-- The candidates below a path for the given components, in order. -/
def candidates (files : Files m) : List (List Piece) → String → m (List Candidate)
  | [], _ => return []
  | component :: rest, path => do
    let proceed (next : String) : m (List Candidate) :=
      if rest.isEmpty then return [.place next none] else candidates files rest next
    match literal? component with
    | some name =>
      let name := String.ofList name
      let next := below path name
      if name = "." ∨ name = ".." then
        if ← isDirectory files path then proceed next else return []
      else
        match ← files.kind? next with
        | some _ => proceed next
        | none => return []
    | none =>
      if ← isDirectory files path then do
        match ← files.list path with
        | .error fault => return [.unlisted ⟨path, fault⟩]
        | .ok names => do
          let children := (names.mergeSort fun a b => decide (a ≤ b)).map fun name =>
            Candidate.place (below path name) (some (component :: rest))
          if component.head? = some (.char '.') then do
            let up ← if isMatch component ['.', '.'] then proceed (PathName.join path "..")
              else pure []
            let here ← if isMatch component ['.'] then proceed (PathName.join path ".")
              else pure []
            return up ++ here ++ children
          else return children
      else return []

/-- Whether a path passes the last component, given that its name fits. -/
def fits (files : Files m) (s : Search) (path : String) : m Bool :=
  if s.onlyDirectories then isDirectory files path else return true

/-- Compares a path with the first of the components: the paths found there and the candidates it
leads to. -/
def compare (files : Files m) (s : Search) (path : String) :
    List (List Piece) → m (List String × List Candidate)
  | [] => return ([], [])
  | component :: rest =>
    match PathName.fileName? path with
    | none => return ([], [])
    | some name =>
      if isMatch component name then
        if rest.isEmpty then do
          return (if ← fits files s path then [path] else [], [])
        else do
          return ([], ← candidates files rest path)
      else return ([], [])

/-- Drops repeated recursive components. -/
def collapse : List (List Piece) → List (List Piece)
  | a :: b :: rest =>
    if isRecursive a && isRecursive b then collapse (b :: rest) else a :: b :: rest
  | cs => cs

/-- The place at a path that still has to pass some components: the paths found there and the
candidates it leads to, in order. -/
def visit (files : Files m) (s : Search) (path : String) (remaining : List (List Piece)) :
    m (List String × List Candidate) := do
  match collapse remaining with
  | [] => return ([], [])
  | component :: rest =>
    if isRecursive component then
      if ← isDirectory files path then do
        let inside ← candidates files (component :: rest) path
        if rest.isEmpty then return ([path], inside)
        else do
          let (found, next) ← compare files s path rest
          return (found, next ++ inside)
      else compare files s path rest
    else compare files s path (component :: rest)

/-- One candidate: what is found there and the candidates it leads to, in order. -/
def step (files : Files m) (s : Search) : Candidate → m (List Hit × List Candidate)
  | .unlisted u => return ([.error u], [])
  | .place path none => do return (if ← fits files s path then [.ok path] else [], [])
  | .place path (some remaining) => do
    let (paths, next) ← visit files s path remaining
    return (paths.map .ok, next)

/-- All that is found below some candidates, each candidate before the next; `levels` bounds the
depth of the directories entered. -/
def explore (files : Files m) (s : Search) : Nat → List Candidate → m (List Hit)
  | 0, _ => return []
  | levels + 1, cs => do
    let found ← cs.mapM fun c => do
      let (here, next) ← step files s c
      return here ++ (← explore files s levels next)
    return found.flatten

/-- The greatest depth of directories. -/
def maxLevels : Nat := 4096

/-- The paths that fit a pattern, and the directories that cannot be listed on the way. -/
def run (files : Files m) (s : Search) : m (List Hit) := do
  explore files s maxLevels (← candidates files s.components s.start)

end Search

end ViewDesign.Glob
