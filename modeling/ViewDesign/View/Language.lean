/-!
# Languages of map functions
-/

namespace ViewDesign

/-- The languages in which map functions are generated. -/
inductive Language where
  | javaScript
  | erlang
deriving Repr, DecidableEq

instance : Inhabited Language := ⟨.javaScript⟩

namespace Language

/-- The name of a language. -/
def name : Language → String
  | .javaScript => "javascript"
  | .erlang => "erlang"

/-- The languages by their names. -/
def choices : List (String × Language) := [("javascript", .javaScript), ("erlang", .erlang)]

/-- The language a user means; case does not matter, and the first has a short name. Only ASCII
letters have forms in these names, so other letters need no case. -/
def ofName? (s : String) : Option Language :=
  let lower := String.ofList (s.toList.map Char.toLower)
  if lower = "javascript" ∨ lower = "js" then some .javaScript
  else if lower = "erlang" then some .erlang
  else none

end Language

end ViewDesign
