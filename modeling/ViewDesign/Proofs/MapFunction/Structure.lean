import ViewDesign.Proofs.MapFunction.Template

/-!
# The structure of a map function does not depend on its names

Without raw fragments every variable part of a generated function is a name or an integer.  Names
are quoted, so whatever characters they have, the text is read as one and the same tree with the
names as its string literals.

* `valueOf?`       the value of a row, unless it is a raw expression;
* `functionOf`     the tree of a function for a class, a key and a value;
* `source_tree`    this is what the generated text is read as.
-/

namespace ViewDesign.MapFunction.JavaScript

open Script

/-- The value of a row as an expression; a raw expression has its own tree, and a float or a value
of an unsupported kind is no matter of names. -/
def valueOf? : EmitValue → Option Expr
  | .default => some (.number (.int 1))
  | .property p => some (propertyOf p)
  | .integer i => some (integerOf i.toInt)
  | _ => none

/-- A function of `doc` with a single `if` and no `else`: a row for the documents of a class. -/
def functionOf (className : String) (k : Option Key) (value : Expr) : Expr :=
  .function none ["doc"]
    [.when (.and classOf (.binary .equal classOf (.text className)))
      (.block [.expression (.call (.name "emit") [keyOf k, value])])]

/-- a value that is no raw expression is generated, and is an expression on its own -/
theorem isSingle_value {v : EmitValue} {e : Expr} (h : valueOf? v = some e) :
    ∃ text, emitValue v = .ok text ∧ Expr.IsSingle text e := by
  cases v with
  | default =>
    cases h
    exact ⟨['1'], rfl, isSingle_one⟩
  | property p =>
    cases h
    exact ⟨property p, rfl, isSingle_property p⟩
  | integer i =>
    cases h
    exact ⟨Decimal.ofInt i.toInt, rfl, isSingle_integer i.toInt⟩
  | expression source => cases h
  | float x => cases h
  | unsupported kind => cases h

/-- **Names cannot change the structure of a map function.**  For every class, key and value that is
no raw expression a text is generated, and the whole of it is read as one function of `doc`, with
each name as a string literal in its place. -/
theorem source_tree (className : String) {o : ViewOptions} {value : Expr}
    (hconditions : o.conditions = none) (hvalue : valueOf? o.emitValue = some value) :
    ∃ text, source className o = .ok text ∧
      Expr.parseSingle? text = some (functionOf className o.key value) := by
  obtain ⟨v, hv, hsingle⟩ := isSingle_value hvalue
  have hfilter : Expr.IsWhole (filter className none) (ofClass className) :=
    isWhole_filter className .none
  refine ⟨frame (filter className none) (key o.key) v, ?_, ?_⟩
  · rw [source, hv, hconditions]
    rfl
  · exact (isSingle_frame o.key hfilter hsingle).parse

/-- A view with quotes, backslashes, line breaks and a null character in its names, and an empty
name. -/
def oddOptions : ViewOptions where
  key := some (.composite ["it's\n\u2028", "\x00\\'", ""])
  emitValue := .integer (-3)

/-- its names are its literals -/
theorem source_tree_odd_names :
    ∃ text, source "O'Brien\\" oddOptions = .ok text ∧
      Expr.parseSingle? text = some (.function none ["doc"]
        [.when (.and classOf (.binary .equal classOf (.text "O'Brien\\")))
          (.block [.expression (.call (.name "emit") [
            .array [propertyOf "it's\n\u2028", propertyOf "\x00\\'", propertyOf ""],
            .unary .negate (.number (.int 3))])])]) :=
  source_tree "O'Brien\\" rfl rfl

end ViewDesign.MapFunction.JavaScript
