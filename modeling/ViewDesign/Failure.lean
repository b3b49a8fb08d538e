import ViewDesign.Document.Complaint
import ViewDesign.Glob.Pattern
import ViewDesign.View.Language

/-!
# What can go wrong

`Failure` lists the causes, `Failure.message` words them.
-/

namespace ViewDesign

/-- A feature that not every language has. -/
inductive Feature where
  | conditions
  | emitValue
deriving Repr, DecidableEq, Inhabited

/-- What messages call a feature. -/
def Feature.name : Feature → String
  | .conditions => "conditions"
  | .emitValue => "a custom emit value"

/-- Why a file or a directory could not be read. -/
inductive ReadFault where
  | missing
  | directory
  | notDirectory
  | denied
  /-- its bytes are no UTF-8 -/
  | notText
  | other (reason : String)
deriving Repr, DecidableEq, Inhabited

/-- The wording of a read fault. -/
def ReadFault.message : ReadFault → String
  | .missing => "No such file or directory (os error 2)"
  | .directory => "Is a directory (os error 21)"
  | .notDirectory => "Not a directory (os error 20)"
  | .denied => "Permission denied (os error 13)"
  | .notText => "stream did not contain valid UTF-8"
  | .other reason => reason

/-- What could not be read. -/
inductive Source where
  | file (path : String)
  /-- a directory, while the files that fit a pattern were looked for -/
  | directory (path : String)
deriving Repr, DecidableEq, Inhabited

/-- What messages say about it. -/
def Source.message : Source → String
  | .file path => "I/O error while trying to read from " ++ path
  | .directory path =>
    "definition files iteration failed: attempting to read `" ++ path ++ "` resulted in an error"

/-- The cause of a failure. -/
inductive Failure where
  | unsupportedEmitValue (kind : String)
  | unsupportedFeature (language : Language) (feature : Feature)
  | unknownLanguage (name : String)
  | unreadable (source : Source) (fault : ReadFault)
  /-- a file was read but its content did not do -/
  | inFile (path : String) (cause : Failure)
  | unsupportedFileType (extension : String)
  | unknownFileType (path : String)
  | json (refusal : Refusal)
  | yaml (refusal : Refusal)
  | badPattern (pattern : String) (fault : Glob.Fault)
  | noSuchView (model view : String)
  | cannotEvaluate (language : Language)
  /-- the script was refused or threw -/
  | script (view : String)
  /-- the script ended without a text -/
  | noScriptResult (view : String)
  /-- what the script collected is no list of rows -/
  | emissions (refusal : Refusal)
deriving Inhabited

namespace Failure

/-- The wording of a refusal, with a word for malformed texts. -/
def refusalMessage (d : Dialect) (r : Refusal) : String :=
  (r.message? d).getD "malformed text"

/-- The wording of a failure. -/
def message : Failure → String
  | .unsupportedEmitValue kind => "unsupported emit value kind: " ++ kind
  | .unsupportedFeature language feature =>
    feature.name ++ " is not implemented for " ++ language.name ++ " map functions"
  | .unknownLanguage name => "unknown view language: " ++ name
  | .unreadable source fault => source.message ++ ": " ++ fault.message
  | .inFile path cause => "failed to load data from file " ++ path ++ ": " ++ cause.message
  | .unsupportedFileType extension => "unsupported file type: " ++ extension
  | .unknownFileType path => "cannot determine file type of file: " ++ path
  | .json refusal => "JSON error: " ++ refusalMessage .text refusal
  | .yaml refusal => "YAML error: " ++ refusalMessage .yaml refusal
  | .badPattern pattern fault =>
    "failed to parse definition file pattern \"" ++ pattern ++ "\": " ++ fault.message
  | .noSuchView model view => "no such view \"" ++ view ++ "\" for model " ++ model
  | .cannotEvaluate language => "cannot evaluate " ++ language.name ++ " map functions locally"
  | .script view => "JavaScript execution error while running \"" ++ view ++ "\""
  | .noScriptResult view =>
    "unexpected return value from JavaScript function \"" ++ view ++ "\": Undefined"
  | .emissions refusal => refusalMessage .text refusal

end Failure

end ViewDesign
