import ViewDesign.Failure
import ViewDesign.View.Options

/-!
# Map functions in JavaScript

The generated function emits one row for each document of a class.  Names go into the text as
quoted literals and are looked up dynamically, so that any text can be a name; conditions and emit
expressions go in as they are.
-/

namespace ViewDesign.MapFunction.JavaScript

/-- A character inside a single-quoted literal.  The quote, the backslash and the four line breaks
of the language are escaped, everything else stands for itself. -/
def escapeChar (c : Char) : List Char :=
  if c = '\\' then ['\\', '\\']
  else if c = '\'' then ['\\', '\'']
  else if c = '\n' then ['\\', 'n']
  else if c = '\r' then ['\\', 'r']
  else if c = '\u2028' then ['\\', 'u', '2', '0', '2', '8']
  else if c = '\u2029' then ['\\', 'u', '2', '0', '2', '9']
  else [c]

/-- A text as it stands inside a single-quoted literal. -/
def escape (cs : List Char) : List Char := cs.flatMap escapeChar

/-- A text as a single-quoted literal. -/
def quote (cs : List Char) : List Char := '\'' :: (escape cs ++ ['\''])

/-- The lookup of a property of the document. -/
def property (name : String) : List Char := "doc[".toList ++ quote name.toList ++ [']']

/-- Lookups after the first one. -/
def moreProperties : List String → List Char
  | [] => []
  | p :: ps => ',' :: ' ' :: (property p ++ moreProperties ps)

/-- Lookups divided by commas. -/
def properties : List String → List Char
  | [] => []
  | p :: ps => property p ++ moreProperties ps

/-- The key of a row. -/
def key : Option Key → List Char
  | none => ['\'', '\'']
  | some (.single p) => property p
  | some (.composite ps) => '[' :: (properties ps ++ [']'])

/-- The value of a row. -/
def emitValue : EmitValue → Except Failure (List Char)
  | .default => .ok ['1']
  | .property p => .ok (property p)
  | .expression source => .ok source.toList
  | .integer i => .ok (Decimal.ofInt i.toInt)
  | .float x =>
    let text := EmitValue.floatLayout.float x
    if Binary64.isFinite x then .ok text.toList
    else .error (.unsupportedEmitValue ("float " ++ text))
  | .unsupported kind => .error (.unsupportedEmitValue kind)

/-- The condition on a document: that it is of the class, and what the options add. -/
def filter (className : String) (conditions : Option String) : List Char :=
  "doc.ruby_class && doc.ruby_class == ".toList ++ quote className.toList ++
    match conditions with
    | none => []
    | some c => " && (".toList ++ c.toList ++ [')']

/-- The text around a condition, a key and a value. -/
def frame (condition key value : List Char) : List Char :=
  "function(doc) \x7b\n  if(".toList ++ condition ++ ") \x7b\n    emit(".toList ++ key ++
    ", ".toList ++ value ++ ");\n  \x7d\n\x7d".toList

/-- The map function of a class. -/
def source (className : String) (o : ViewOptions) : Except Failure (List Char) := do
  let value ← emitValue o.emitValue
  return frame (filter className o.conditions) (key o.key) value

end ViewDesign.MapFunction.JavaScript
