import ViewDesign.Json.Basic
import ViewDesign.Text.Quoted

/-!
# Why a document is refused

* `Dialect`       the three ways a document reaches a decoder;
* `Found`         what stands at a place where something else was expected;
* `Complaint`     the reasons of a refusal, `Complaint.message` their wording;
* `Step`, `Path`  where in the document;
* `Refusal`       a malformed text, or a complaint and its place.
-/

namespace ViewDesign

/-- How a document reaches a decoder. -/
inductive Dialect where
  /-- as a JSON text -/
  | text
  /-- as a JSON value that has been read before -/
  | value
  /-- as a YAML text -/
  | yaml
deriving Repr, DecidableEq, Inhabited

/-- How many levels of nesting a decoder follows, if there is a bound. -/
def Dialect.maxDepth : Dialect → Option Nat
  | .text => some 127
  | .value => none
  | .yaml => some 128

/-- What a decoder finds at a place. -/
inductive Found where
  | unit
  | bool (b : Bool)
  | int (i : Int)
  /-- an integer beyond sixty-four bits -/
  | wide (i : Int)
  | float (x : Float)
  | text (s : String)
  | sequence
  | mapping
deriving Inhabited

/-- Floats in complaints about YAML texts: without exponent, and with a point. -/
def plainFloatLayout : Decimal.Layout where
  positional := none
  keepPoint := true
  signedZero := true
  notANumber := "NaN"
  infinity := "inf"

/-- The name of what was found. -/
def Found.describe (d : Dialect) : Found → String
  | .unit => if d = .yaml then "unit value" else "null"
  | .bool b => "boolean `" ++ (if b then "true" else "false") ++ "`"
  | .int i => "integer `" ++ String.ofList (Decimal.ofInt i) ++ "`"
  | .wide i =>
    "integer `" ++ String.ofList (Decimal.ofInt i) ++ "` as " ++ (if i < 0 then "i128" else "u128")
  | .float x =>
    let layout := if d = .yaml then plainFloatLayout else Json.floatLayout
    "floating point `" ++ layout.float x ++ "`"
  | .text s => "string " ++ Text.quoted s
  | .sequence => "sequence"
  | .mapping => "map"

/-- The reason of a refusal. -/
inductive Complaint where
  | unexpectedType (found : Found) (expected : String)
  | unexpectedValue (found : Found) (expected : String)
  | unknownField (name : String) (known : List String)
  | unknownVariant (name : String) (known : List String)
  | duplicateField (name : String)
  | missingField (name : String)
  | wrongLength (length : Nat) (expected : String)
  | noAlternative (ofType : String)
  | numberOutOfRange
  | tooDeep
  | noDocument
  | severalDocuments
deriving Inhabited

/-- A list of names that are expected: one, two, or one of several. -/
def oneOf (names : List String) : String :=
  let marked := names.map fun n => "`" ++ n ++ "`"
  match marked with
  | [] => ""
  | [a] => a
  | [a, b] => a ++ " or " ++ b
  | more => "one of " ++ ", ".intercalate more

/-- The wording of a complaint. -/
def Complaint.message (d : Dialect) : Complaint → String
  | .unexpectedType found expected =>
    "invalid type: " ++ found.describe d ++ ", expected " ++ expected
  | .unexpectedValue found expected =>
    "invalid value: " ++ found.describe d ++ ", expected " ++ expected
  | .unknownField name known => "unknown field `" ++ name ++ "`, expected " ++ oneOf known
  | .unknownVariant name known => "unknown variant `" ++ name ++ "`, expected " ++ oneOf known
  | .duplicateField name => "duplicate field `" ++ name ++ "`"
  | .missingField name => "missing field `" ++ name ++ "`"
  | .wrongLength n expected =>
    "invalid length " ++ String.ofList (Decimal.digitsOf n) ++ ", expected " ++ expected
  | .noAlternative ofType => "data did not match any variant of untagged enum " ++ ofType
  | .numberOutOfRange => "JSON number out of range"
  | .tooDeep => "recursion limit exceeded"
  | .noDocument => "EOF while parsing a value"
  | .severalDocuments =>
    "deserializing from YAML containing more than one document is not supported"

/-- One step from a value to a part of it. -/
inductive Step where
  | member (name : String)
  | item (index : Nat)
  /-- a member whose name is no text -/
  | unnamed
deriving Repr, DecidableEq, Inhabited

/-- The place of a value: the steps from the root, the last one first. -/
abbrev Path := List Step

/-- The text of a place, a single dot for the root. -/
def Path.text : Path → String
  | [] => "."
  | .item i :: up => Path.text up ++ "[" ++ String.ofList (Decimal.digitsOf i) ++ "]"
  | .member name :: up => parent up ++ name
  | .unnamed :: up => parent up ++ "?"
where
  parent (up : Path) : String := if up.isEmpty then "" else Path.text up ++ "."

/-- Why a document was not decoded. -/
inductive Refusal where
  /-- the text is malformed, or exceeds what the format's reader takes -/
  | malformed
  | refused (path : Path) (complaint : Complaint)
deriving Inhabited

/-- The wording of a refusal; `none` for a malformed text. A YAML complaint names its place. -/
def Refusal.message? (d : Dialect) : Refusal → Option String
  | .malformed => none
  | .refused path c =>
    some (if d = .yaml ∧ !path.isEmpty then path.text ++ ": " ++ c.message d else c.message d)

end ViewDesign
