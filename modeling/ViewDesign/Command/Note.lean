import ViewDesign.Catalog

/-!
# Log notes

What the commands report beside their output.
-/

namespace ViewDesign

/-- How important a note is. -/
inductive Level where
  | debug
  | info
  | warn
  | error
deriving Repr, DecidableEq, Inhabited

/-- The name of a level, five characters wide. -/
def Level.label : Level → String
  | .debug => "DEBUG"
  | .info => "INFO "
  | .warn => "WARN "
  | .error => "ERROR"

/-- What is reported. -/
inductive Note where
  /-- a definition was loaded -/
  | loaded (path : String) (d : DesignDefinition)
  /-- a map function was generated -/
  | generated (s : ViewSpec)
  /-- a map function was run -/
  | emitted (view : String) (rows docs : Nat)
  /-- a view cannot be evaluated here -/
  | skipped (s : ViewSpec)
  /-- a view has been run -/
  | produced (view : String) (results : Nat)
  /-- the command failed -/
  | failed (t : Trouble)

namespace Note

/-- The level of a note. -/
def level : Note → Level
  | .loaded .. | .generated _ | .emitted .. => .debug
  | .produced .. => .info
  | .skipped _ => .warn
  | .failed _ => .error

/-- The part of the program a note comes from. -/
def origin : Note → String
  | .loaded .. | .skipped _ => "couchview::config"
  | .generated _ => "couchview::view"
  | .emitted .. => "couchview::js"
  | .produced .. | .failed _ => "couchview"

/-- A count in decimal. -/
def count (n : Nat) : String := String.ofList (Decimal.digitsOf n)

/-- The wording of a note. -/
def message : Note → String
  | .loaded path d =>
    "Loaded " ++ count d.views.size ++ " view(s) for " ++ d.model ++ " from " ++ path
  | .generated s =>
    "Generated " ++ s.language.name ++ " map function for view " ++ s.name ++ " of " ++ s.ownerClass
  | .emitted view rows docs =>
    "View " ++ view ++ " emitted " ++ count rows ++ " row(s) for " ++ count docs ++ " document(s)"
  | .skipped s =>
    "Skipping view " ++ s.name ++ " of " ++ s.ownerClass ++ ": " ++ s.language.name ++
      " map functions cannot be evaluated locally"
  | .produced view results => "View " ++ view ++ " produced " ++ count results ++ " result(s)"
  | .failed t => "Failed: " ++ t.message

/-- A note as a line of the log. -/
def line (n : Note) : String := n.level.label ++ " [" ++ n.origin ++ "] " ++ n.message

end Note

end ViewDesign
