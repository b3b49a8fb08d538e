import ViewDesign.MapFunction.Erlang
import ViewDesign.MapFunction.JavaScript
import ViewDesign.View.Query
import ViewDesign.View.Row

/-!
# View specifications

A specification says all about one view over the documents of a class: which of them it indexes,
what it emits for each, and how it is queried.
-/

namespace ViewDesign

/-- A view over the documents of a class. -/
structure ViewSpec where
  ownerClass : String
  name : String
  view : ViewOptions := {}
  query : QueryOptions := {}
deriving Inhabited

namespace ViewSpec

/-- The language of the map function. -/
def language (s : ViewSpec) : Language := s.view.language

/-- The same view with its map function in another language. -/
def withLanguage (s : ViewSpec) (l : Language) : ViewSpec :=
  { s with view := { s.view with language := l } }

/-- The source of the map function. -/
def mapFunction (s : ViewSpec) : Except Failure String :=
  match s.language with
  | .javaScript => (MapFunction.JavaScript.source s.ownerClass s.view).map String.ofList
  | .erlang => (MapFunction.Erlang.source s.ownerClass s.view).map String.ofList

/-- The results of a query of this view: documents if the query includes them, ids otherwise. -/
def processResults (s : ViewSpec) (rows : RowEnvelope) : List ViewResult :=
  rows.process s.query.wantsDocs

end ViewSpec

end ViewDesign
