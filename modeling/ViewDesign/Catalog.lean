import ViewDesign.Design
import ViewDesign.Glob.Search

/-!
# Loading files

* `loadFile`          one file, in the format of its extension;
* `Loading`           how far the loading of several files came;
* `loadPatterns`      all files that fit some patterns, in order.

Patterns are taken one after the other and the files of each in the order of the search.  Loading
stops at the first bad pattern, at the first directory that cannot be listed and at the first file
that does not load.
-/

namespace ViewDesign

variable {m : Type → Type} [Monad m] {α : Type}

/-- Decodes the content of a file that was read. -/
def decodeFile (path : String) (format : Format) (d : Decoder α) :
    Except ReadFault String → Except Failure α
  | .error fault => .error (.unreadable (.file path) fault)
  | .ok text => (format.parse d text).mapError (.inFile path)

/-- Loads a file.  Its format is settled before it is read. -/
def loadFile (files : Files m) (d : Decoder α) (path : String) : m (Except Failure α) :=
  match Format.ofFile path with
  | .error e => return .error e
  | .ok format => do return decodeFile path format d (← files.read path)

/-- A failure, and what was being done when it happened. -/
structure Trouble where
  context : Option String := none
  cause : Failure
deriving Inhabited

/-- The wording of a trouble. -/
def Trouble.message (t : Trouble) : String :=
  match t.context with
  | some context => context ++ ": " ++ t.cause.message
  | none => t.cause.message

/-- The definitions loaded so far with their paths, and the trouble that put an end to it. -/
structure Loading where
  loaded : List (String × DesignDefinition) := []
  trouble : Option Trouble := none
deriving Inhabited

namespace Loading

/-- Goes on with another loading, unless there was trouble. -/
def andThen (first : Loading) (second : m Loading) : m Loading :=
  match first.trouble with
  | some _ => return first
  | none => do
    let second ← second
    return ⟨first.loaded ++ second.loaded, second.trouble⟩

/-- The definitions, if all were loaded. -/
def result (l : Loading) : Except Trouble (List DesignDefinition) :=
  match l.trouble with
  | some t => .error t
  | none => .ok (l.loaded.map Prod.snd)

end Loading

/-- Loads the definition at a path; what is no file is passed over. -/
def loadPath (files : Files m) (path : String) : m Loading := do
  if (← files.kind? path) = some .file then
    match ← loadFile files DesignDefinition.decoder path with
    | .ok d => return { loaded := [(path, d)] }
    | .error e =>
      return { trouble := some ⟨some ("failed to load definitions from " ++ path), e⟩ }
  else return {}

/-- Loads the definition that the search for a pattern came upon. -/
def loadHit (files : Files m) : Glob.Search.Hit → m Loading
  | .ok path => loadPath files path
  | .error u => return { trouble := some ⟨none, .unreadable (.directory u.path) u.fault⟩ }

/-- Loads the definitions that the search for a pattern came upon. -/
def loadHits (files : Files m) : List Glob.Search.Hit → m Loading
  | [] => return {}
  | hit :: rest => do (← loadHit files hit).andThen (loadHits files rest)

/-- Loads the definitions that fit a pattern. -/
def loadPattern (files : Files m) (pattern : String) : m Loading :=
  match Glob.Search.ofText pattern with
  | .error fault => return { trouble := some ⟨none, .badPattern pattern fault⟩ }
  | .ok search => do loadHits files (← search.run files)

/-- Loads the definitions that fit some patterns. -/
def loadPatterns (files : Files m) : List String → m Loading
  | [] => return {}
  | pattern :: rest => do (← loadPattern files pattern).andThen (loadPatterns files rest)

end ViewDesign
