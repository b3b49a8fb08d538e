import ViewDesign.Command.Arguments
import ViewDesign.Command.Note
import ViewDesign.Evaluation

/-!
# Running a command

A command produces lines, some of them notes of the log, and may stop with trouble.  Lines that were
produced before the trouble stay.

* `Line`             one line of output, or a note;
* `Outcome`          the lines and the trouble;
* `Command.execute`  runs a command;
* `Invocation.run`   the exit status and the text of an invocation.
-/

namespace ViewDesign

/-- A piece of output. -/
inductive Line where
  /-- text that is printed, one or more lines -/
  | text (s : String)
  | note (n : Note)

/-- What a command did. -/
structure Outcome where
  lines : List Line := []
  trouble : Option Trouble := none

namespace Outcome

/-- Nothing but trouble. -/
def fail (e : Failure) : Outcome := { trouble := some ⟨none, e⟩ }

/-- Goes on with another outcome, unless there was trouble. -/
def andThen (first second : Outcome) : Outcome :=
  match first.trouble with
  | some _ => first
  | none => ⟨first.lines ++ second.lines, second.trouble⟩

/-- One outcome after the other, up to the first trouble. -/
def sequence (outcomes : List Outcome) : Outcome := outcomes.foldr andThen {}

/-- Lines before an outcome. -/
def after (lines : List Line) (o : Outcome) : Outcome := { o with lines := lines ++ o.lines }

end Outcome

namespace Command

/-- The patterns that are used when none are given. -/
def defaultPatterns : List String := ["views/*.json", "views/*.yml", "views/*.yaml"]

/-- The patterns of a command. -/
def patternsOrDefault (patterns : List String) : List String :=
  if patterns.isEmpty then defaultPatterns else patterns

/-- The notes of a loading. -/
def loadedNotes (loaded : List (String × DesignDefinition)) : List Line :=
  loaded.map fun (path, d) => .note (.loaded path d)

/-- Loads definitions and shows something of each of their views. -/
def forViews {m : Type → Type} [Monad m] (files : Files m) (patterns : List String)
    (each : DesignDefinition → ViewSpec → Outcome) : m Outcome := do
  let loading ← loadPatterns files (patternsOrDefault patterns)
  let notes := loadedNotes loading.loaded
  match loading.result with
  | .error t => return { lines := notes, trouble := some t }
  | .ok ds =>
    return (Outcome.sequence (ds.flatMap fun d => d.specs.map (each d))).after notes

/-- The view in the language asked for. -/
def inLanguage (language : Option Language) (s : ViewSpec) : ViewSpec :=
  match language with
  | some l => s.withLanguage l
  | none => s

/-- The header and the map function of a view. -/
def showMap (language : Option Language) (d : DesignDefinition) (s : ViewSpec) : Outcome :=
  let s := inLanguage language s
  let header := "// " ++ d.model ++ "/" ++ s.name ++ " (" ++ s.language.name ++ ")"
  match s.mapFunction with
  | .error e => (Outcome.fail e).after [.text header]
  | .ok source => { lines := [.text header, .note (.generated s), .text (source ++ "\n")] }

/-- The header and the query parameters of a view. -/
def showQuery (d : DesignDefinition) (s : ViewSpec) : Outcome :=
  let pairs := s.query.pairs.map fun (name, value) => Line.text (name ++ "=" ++ value)
  { lines := [.text ("[" ++ d.model ++ "/" ++ s.name ++ "]")] ++ pairs ++ [.text ""] }

/-- The notes of an evaluation that precede its result. -/
def evaluationNotes (s : ViewSpec) : List Line :=
  match s.language, s.mapFunction with
  | .javaScript, .ok _ => [.note (.generated s)]
  | _, _ => []

/-- Runs views one after the other. The results are shown only when all have been run. -/
def runViews (docs : List Json) : List (String × Json) → List ViewSpec → Outcome
  | done, [] => { lines := [.text (Json.object done.reverse).pretty] }
  | done, s :: rest =>
    let notes := evaluationNotes s
    match s.evaluate docs with
    | .error e => (Outcome.fail e).after notes
    | .ok envelope =>
      let results := s.processResults envelope
      let notes := notes ++ [
        .note (.emitted s.name envelope.rows.length docs.length),
        .note (.produced s.name results.length)]
      (runViews docs ((s.name, .arr (results.map ViewResult.encode)) :: done) rest).after notes

/-- Runs the views of a definition over documents. -/
def runDefinition (d : DesignDefinition) (docs : List Json) (view : Option String) : Outcome :=
  let skipped := (d.skipped view).map fun s => Line.note (.skipped s)
  match d.evaluable view with
  | .error e => .fail e
  | .ok specs => (runViews docs [] specs).after skipped

variable {m : Type → Type} [Monad m]

/-- Runs a command. -/
def execute (files : Files m) : Command → m Outcome
  | .map language patterns => forViews files patterns (showMap language)
  | .query patterns => forViews files patterns showQuery
  | .run definition docs view => do
    match ← loadFile files DesignDefinition.decoder definition with
    | .error e => return .fail e
    | .ok d =>
      let outcome ← match ← loadFile files (Decoder.list Decoder.free) docs with
        | .error e => pure (Outcome.fail e)
        | .ok docs => pure (runDefinition d docs view)
      return outcome.after (loadedNotes [(definition, d)])
  | .process definition rows view => do
    match ← loadFile files DesignDefinition.decoder definition with
    | .error e => return .fail e
    | .ok d =>
      let outcome ← match d.spec view with
        | .error e => pure (Outcome.fail e)
        | .ok s =>
          match ← loadFile files RowEnvelope.decoder rows with
          | .error e => pure (Outcome.fail e)
          | .ok envelope =>
            let results := (s.processResults envelope).map ViewResult.encode
            pure { lines := [.text (Json.arr results).pretty] }
      return outcome.after (loadedNotes [(definition, d)])

end Command

/-! ## Invocations -/

/-- The text of a line, `none` when it is not shown. -/
def Line.shown? (verbose : Bool) : Line → Option String
  | .text s => some s
  | .note n => if n.level = .debug && !verbose then none else some n.line

/-- Everything a command shows; trouble comes last. -/
def Outcome.shown (verbose : Bool) (o : Outcome) : List String :=
  let trouble := match o.trouble with
    | some t => [Line.note (.failed t)]
    | none => []
  (o.lines ++ trouble).filterMap (Line.shown? verbose)

/-- Texts, each ended by a line break. -/
def printed (texts : List String) : String := String.join (texts.map (· ++ "\n"))

/-- The name and version of the program. -/
def versionText : String := "couchview 0.1.0"

/-- How the program is used. -/
def helpText : String :=
  "Usage: couchview [-v] map [-l LANGUAGE] [DEFINITIONS]...\n" ++
  "       couchview [-v] query [DEFINITIONS]...\n" ++
  "       couchview [-v] run DEFINITION DOCS [-n VIEW]\n" ++
  "       couchview [-v] process DEFINITION ROWS -n VIEW"

/-- The exit status of an invocation and what it prints. -/
def Invocation.run {m : Type → Type} [Monad m] (files : Files m) : Invocation → m (Nat × String)
  | .version => return (0, printed [versionText])
  | .help => return (0, printed [helpText])
  | .misuse => return (2, "")
  | .command verbose c => do
    let o ← c.execute files
    return (if o.trouble.isSome then 1 else 0, printed (o.shown verbose))

end ViewDesign
