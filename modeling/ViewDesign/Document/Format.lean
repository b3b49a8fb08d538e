import ViewDesign.Document.Decoder
import ViewDesign.Failure
import ViewDesign.Files
import ViewDesign.Json.Reader
import ViewDesign.Yaml.Tree

/-!
# Document formats

* `Format`          the formats of definition files;
* `Format.ofFile`   the format of a file, by its extension;
* `Format.parse`    decodes a text.
-/

namespace ViewDesign

/-- The formats of definition files. -/
inductive Format where
  | json
  | yaml
deriving Repr, DecidableEq, Inhabited

namespace Format

/-- The format a name or an extension stands for; case does not matter. -/
def ofName? (s : String) : Option Format :=
  let lower := String.ofList (s.toList.map Char.toLower)
  if lower = "json" then some .json
  else if lower = "yaml" ∨ lower = "yml" then some .yaml
  else none

/-- The format a name stands for, or a failure. -/
def ofName (s : String) : Except Failure Format :=
  match ofName? s with
  | some f => .ok f
  | none => .error (.unsupportedFileType s)

/-- The format of a file, by its extension. -/
def ofFile (path : String) : Except Failure Format :=
  match PathName.extension? path with
  | none => .error (.unknownFileType path)
  | some extension =>
    match ofName? extension with
    | some f => .ok f
    | none => .error (.inFile path (.unsupportedFileType extension))

variable {α : Type}

/-- Decodes a JSON text: its value, after which nothing may follow. -/
def parseJson (d : Decoder α) (text : String) : Except Refusal α := do
  let source := Json.Source.ofText text
  let a ← d (.root .text) source.root
  if source.ends then return a else .error .malformed

/-- Decodes a YAML text: its only document. -/
def parseYaml (d : Decoder α) (text : String) : Except Refusal α :=
  match Yaml.documents text with
  | none => .error .malformed
  | some [] => .error (.refused [] .noDocument)
  | some (root :: more) => do
    let a ← d (.root .yaml) root
    if more.isEmpty then return a else .error (.refused [] .severalDocuments)

/-- Decodes a text. -/
def parse (f : Format) (d : Decoder α) (text : String) : Except Failure α :=
  match f with
  | .json => (parseJson d text).mapError .json
  | .yaml => (parseYaml d text).mapError .yaml

end Format

end ViewDesign
