import ViewDesign.Failure
import ViewDesign.NameMap

/-!
# Files

The library sees files through three questions, so that it works the same over a tree held in
memory and over the machine's disk.

* `Files`        the questions: what kind of thing is at a path, what does a directory hold, what
                 is in a file; the last two may fail;
* `FileTree`     a directory tree in memory, and its answers;
* `PathName`     the parts of a path.
-/

namespace ViewDesign

/-- What can stand at a path. -/
inductive FileKind where
  | file
  | directory
  /-- a pipe, a socket or a device -/
  | special
deriving Repr, DecidableEq, Inhabited

/-- Access to files, in whatever monad it takes. -/
structure Files (m : Type → Type) where
  /-- what is at a path; `none` when there is nothing -/
  kind? : String → m (Option FileKind)
  /-- the names in a directory, in any order -/
  list : String → m (Except ReadFault (List String))
  /-- the text of a file -/
  read : String → m (Except ReadFault String)

/-! ## Paths -/

namespace PathName

/-- The parts of a path between its separators. -/
def parts (path : String) : List (List Char) :=
  go [] path.toList
where
  go (part : List Char) : List Char → List (List Char)
    | [] => [part.reverse]
    | '/' :: cs => part.reverse :: go [] cs
    | c :: cs => go (c :: part) cs

/-- A name below a directory. -/
def join (directory name : String) : String :=
  if directory.toList.getLast? = some '/' then directory ++ name else directory ++ "/" ++ name

/-- Whether a path is absolute. -/
def isAbsolute (path : String) : Bool := path.toList.head? = some '/'

/-- Whether a path names the working directory by nothing but dots. -/
def isHere (path : String) : Bool :=
  match parts path with
  | first :: rest => first == ['.'] && rest.all fun p => p == ['.'] || p.isEmpty
  | [] => false

/-- The last component of a path that says something: empty ones and dots do not. -/
def fileName? (path : String) : Option (List Char) :=
  match ((parts path).filter fun p => !(p.isEmpty || p == ['.'])).getLast? with
  | some ['.', '.'] => none
  | name => name

/-- What follows the last dot of the file name, unless the name starts with that dot. -/
def extension? (path : String) : Option String :=
  match fileName? path with
  | none => none
  | some name =>
    let after := name.reverse.takeWhile (· ≠ '.')
    match name.reverse.dropWhile (· ≠ '.') with
    | _ :: _ :: _ => some (String.ofList after.reverse)
    | _ => none

end PathName

/-! ## Trees in memory -/

/-- A file with its bytes, or a directory with its entries. -/
inductive FileTree where
  | file (content : ByteArray)
  | directory (entries : List (String × FileTree))
deriving Inhabited

namespace FileTree

/-- The tree of a single path. -/
def ofPath (content : FileTree) : List String → FileTree
  | [] => content
  | name :: rest => .directory [(name, ofPath content rest)]

/-- Puts a tree at a path; a directory that is there already stays. -/
def insert (content : FileTree) : List String → FileTree → FileTree
  | [], old =>
    match old, content with
    | .directory entries, .directory _ => .directory entries
    | _, _ => content
  | name :: rest, .directory entries =>
    let child := match Entries.get? name entries with
      | some old => insert content rest old
      | none => ofPath content rest
    .directory (Entries.insert name child entries)
  | name :: rest, .file _ => ofPath content (name :: rest)

/-- The components of a path that say something. -/
def components (path : String) : List String :=
  ((PathName.parts path).filter fun p => !(p.isEmpty || p == ['.'])).map String.ofList

/-- The tree of files given by their paths. -/
def ofFiles (files : List (String × FileTree)) : FileTree :=
  files.foldl (fun tree f => insert f.2 (components f.1) tree) (.directory [])

/-- Follows the parts of a path; `above` are the directories on the way down. A part of a path can
only be below a directory. -/
def walk : List FileTree → FileTree → List (List Char) → Except ReadFault FileTree
  | _, here, [] => .ok here
  | _, .file _, _ :: _ => .error .notDirectory
  | above, .directory entries, part :: rest =>
    if part.isEmpty ∨ part = ['.'] then walk above (.directory entries) rest
    else if part = ['.', '.'] then
      match above with
      | [] => .error .missing
      | up :: above => walk above up rest
    else
      match Entries.get? (String.ofList part) entries with
      | some tree => walk (.directory entries :: above) tree rest
      | none => .error .missing

/-- What is at a path, seen from the root of the tree. -/
def at? (tree : FileTree) (path : String) : Except ReadFault FileTree :=
  if path.isEmpty || PathName.isAbsolute path then .error .missing
  else walk [] tree (PathName.parts path)

/-- The answers of a tree. -/
def files (tree : FileTree) : Files Id where
  kind? path :=
    match tree.at? path with
    | .ok (.file _) => some .file
    | .ok (.directory _) => some .directory
    | .error _ => none
  list path :=
    match tree.at? path with
    | .ok (.directory entries) => .ok (entries.map Prod.fst)
    | .ok (.file _) => .error .notDirectory
    | .error fault => .error fault
  read path :=
    match tree.at? path with
    | .ok (.file content) =>
      match String.fromUTF8? content with
      | some text => .ok text
      | none => .error .notText
    | .ok (.directory _) => .error .directory
    | .error fault => .error fault

end FileTree

end ViewDesign
