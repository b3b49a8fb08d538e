import ViewDesign.Failure
import ViewDesign.View.Options

/-!
# Map functions in Erlang

A document arrives as a property list, and every property is looked up in it with `null` for a
missing one.  Neither conditions nor emit values can be expressed.
-/

namespace ViewDesign.MapFunction.Erlang

/-- Puts a backslash before every occurrence of a character. -/
def guardChar (c : Char) (cs : List Char) : List Char :=
  cs.flatMap fun d => if d = c then ['\\', d] else [d]

/-- A text inside a double-quoted literal: backslashes first, then quotes. -/
def escape (cs : List Char) : List Char := guardChar '"' (guardChar '\\' cs)

/-- A text as a binary literal; other than ASCII texts are marked as UTF-8. -/
def binary (cs : List Char) : List Char :=
  let mark := if cs.all (·.toNat < 128) then [] else "/utf8".toList
  "<<\"".toList ++ escape cs ++ ['"'] ++ mark ++ ">>".toList

/-- A variable bound to the value of a property. -/
def binding (bound : List Char) (property : String) : List Char :=
  bound ++ " = proplists:get_value(".toList ++ binary property.toList ++ ", Doc, null)".toList

/-- The variable of the property at a place of a composite key. -/
def keyVariable (i : Nat) : List Char := "Key_".toList ++ Decimal.digitsOf i

/-- A binding on a line of its own. -/
def bindingLine (b : List Char) : List Char := "            ".toList ++ b ++ ",\n".toList

/-- The lines that bind the properties of a composite key from a place on. -/
def bindingLines : Nat → List String → List Char
  | _, [] => []
  | i, p :: ps => bindingLine (binding (keyVariable i) p) ++ bindingLines (i + 1) ps

/-- Variables after the first one. -/
def moreVariables : Nat → List String → List Char
  | _, [] => []
  | i, _ :: ps => ',' :: ' ' :: (keyVariable i ++ moreVariables (i + 1) ps)

/-- The variables of a composite key divided by commas. -/
def boundNames : List String → List Char
  | [] => []
  | _ :: ps => keyVariable 0 ++ moreVariables 1 ps

/-- The lines that bind the key and the expression of the key. -/
def key : Option Key → List Char × List Char
  | none => ([], binary [])
  | some (.single p) => (bindingLine (binding "Key".toList p), "Key".toList)
  | some (.composite ps) => (bindingLines 0 ps, '[' :: (boundNames ps ++ [']']))

/-- The text around a class and a key. -/
def frame (className bindings key : List Char) : List Char :=
  "fun(\x7bDoc\x7d) ->\n    case proplists:get_value(".toList ++ binary "ruby_class".toList ++
    ", Doc) of\n        ".toList ++ className ++ " ->\n".toList ++ bindings ++
    "            Emit(".toList ++ key ++
    ", 1);\n        _ ->\n            ok\n    end\nend.".toList

/-- The map function of a class. -/
def source (className : String) (o : ViewOptions) : Except Failure (List Char) :=
  if o.conditions.isSome then .error (.unsupportedFeature .erlang .conditions)
  else if !o.emitValue.isDefault then .error (.unsupportedFeature .erlang .emitValue)
  else
    let (bindings, k) := key o.key
    .ok (frame (binary className.toList) bindings k)

end ViewDesign.MapFunction.Erlang
