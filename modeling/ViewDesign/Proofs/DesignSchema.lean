import ViewDesign.Design
import ViewDesign.Proofs.Document.Acceptance

/-!
# Which texts define a design

The schema of design definitions: what the records and their fields may look like, in a text.  A
text defines a design exactly if it is the text of a value and that value follows the schema.  The
schema has two readings: in the narrow one a record is an object; in the wide one, which is the one
that is decoded, it may as well be an array of the values of its first fields.

* `Shape.viewOptions`, `Shape.queryOptions`, `Shape.viewDefinition`, `Shape.design`  the schema;
* `Accepts.parse`                          the texts that a decoder accepts;
* `DesignDefinition.decoded_iff_schema`    texts that define a design;
* `DesignDefinition.decoded_from_array`    one that does so in the wide reading only.
-/

namespace ViewDesign

/-! ## The schema -/

namespace Shape

/-- What a view selects and emits. -/
def viewOptions (ordered : Bool) : Shape :=
  record ordered [
    ("key", orNull (either text (listOf text))),
    ("conditions", orNull text),
    ("emit_value", any),
    ("language", among ["javascript", "erlang"])] []

/-- The parameters of a query. -/
def queryOptions (ordered : Bool) : Shape :=
  record ordered [
    ("include_docs", orNull flag),
    ("key", orNull any),
    ("keys", orNull (listOf any)),
    ("startkey", orNull any),
    ("startkey_docid", orNull text),
    ("endkey", orNull any),
    ("endkey_docid", orNull text),
    ("limit", orNull count),
    ("skip", orNull count),
    ("descending", orNull flag),
    ("group", orNull flag),
    ("group_level", orNull count),
    ("reduce", orNull flag),
    ("inclusive_end", orNull flag),
    ("stale", orNull (among ["ok", "update_after"]))] []

/-- The definition of a view; neither part may be null. -/
def viewDefinition (ordered : Bool) : Shape :=
  record ordered [("view", viewOptions ordered), ("query", queryOptions ordered)] []

/-- The definition of a design; its model may not be missing. -/
def design (ordered : Bool) : Shape :=
  record ordered [("model", text), ("views", mapOf (viewDefinition ordered))] ["model"]

end Shape

/-! ## Keys -/

theorem Decoder.mapM_textOnly?_iff {ctx : Context} {items : List Node}
    (h : ∀ v ∈ items, v.Literal) :
    (∃ ps, items.mapM (textOnly? ctx) = some ps) ↔ ∀ v ∈ items, Shape.text v := by
  simp only [mapM_some_iff, exists_forall₂_iff]
  exact forall₂_congr fun v hv => exists_congr fun s => textOnly?_iff (h v hv)

/-- a key is a string or an array of strings -/
theorem Key.accepts : Accepts Key.decoder (.either .text (.listOf .text)) := by
  intro depth path node hnode
  simp only [Key.decoder, exists_ok_bind, ← Decoder.walkNode_ok_iff node hnode depth path,
    ← exists_and_right]
  -- the value has been walked over, so only its shape is left to ask for
  refine exists_congr fun u => and_congr_right fun hwalk => ?_
  clear hwalk
  simp only [Shape.either, Shape.listOf]
  split
  · rename_i items
    simp only [Node.Literal, Node.literalItems_iff] at hnode
    have htexts := @Decoder.mapM_textOnly?_iff ⟨.text, some depth, path⟩ items hnode
    simp only [Shape.text, reduceCtorEq, exists_false, false_or, Node.sequence.injEq,
      exists_eq_left'] at htexts ⊢
    rw [← htexts]
    split <;> simp [*]
  · rename_i hsequence
    have htext : (∃ s, Decoder.textOnly? ⟨.text, some depth, path⟩ node = some s) ↔
        Shape.text node := exists_congr fun s => Decoder.textOnly?_iff hnode
    have hlist : ¬ ∃ items, node = .sequence items ∧ ∀ v ∈ items, Shape.text v := by
      rintro ⟨items, hitems, -⟩
      exact hsequence items hitems
    rw [or_iff_left hlist, ← htext]
    split <;> simp [*]

/-! ## The records follow it -/

open Accepts in
theorem ViewOptions.accepts : Accepts ViewOptions.decoder (Shape.viewOptions true) := by
  refine @Record.Describes.accepts _ record _ ⟨rfl, by decide, ?_⟩
  exact .cons ⟨rfl, Key.accepts.optional.map _⟩ <| .cons ⟨rfl, text.optional.map _⟩ <|
    .cons ⟨rfl, (free.map _).map _⟩ <| .cons ⟨rfl, (choice Language.choices).map _⟩ .nil

open Accepts in
theorem QueryOptions.accepts : Accepts QueryOptions.decoder (Shape.queryOptions true) := by
  refine @Record.Describes.accepts _ record _ ⟨rfl, by decide, ?_⟩
  exact .cons ⟨rfl, flag.optional.map _⟩ <| .cons ⟨rfl, free.optional.map _⟩ <|
    .cons ⟨rfl, free.list.optional.map _⟩ <| .cons ⟨rfl, free.optional.map _⟩ <|
    .cons ⟨rfl, text.optional.map _⟩ <| .cons ⟨rfl, free.optional.map _⟩ <|
    .cons ⟨rfl, text.optional.map _⟩ <| .cons ⟨rfl, count.optional.map _⟩ <|
    .cons ⟨rfl, count.optional.map _⟩ <| .cons ⟨rfl, flag.optional.map _⟩ <|
    .cons ⟨rfl, flag.optional.map _⟩ <| .cons ⟨rfl, count.optional.map _⟩ <|
    .cons ⟨rfl, flag.optional.map _⟩ <| .cons ⟨rfl, flag.optional.map _⟩ <|
    .cons ⟨rfl, (choice Stale.choices).optional.map _⟩ .nil

theorem ViewDefinition.accepts : Accepts record.decoder (Shape.viewDefinition true) := by
  refine @Record.Describes.accepts _ record _ ⟨rfl, by decide, ?_⟩
  exact .cons ⟨rfl, ViewOptions.accepts.map _⟩ <| .cons ⟨rfl, QueryOptions.accepts.map _⟩ .nil

theorem DesignDefinition.accepts : Accepts DesignDefinition.decoder (Shape.design true) := by
  refine @Record.Describes.accepts _ record _ ⟨rfl, by decide, ?_⟩
  exact .cons ⟨rfl, Accepts.text.map _⟩ <| .cons ⟨rfl, ViewDefinition.accepts.names.map _⟩ .nil

/-! ## Texts -/

/-- a text is decoded if its tree is and nothing follows -/
theorem parse_eq_ok_iff {α : Type} {d : Decoder α} {text : String} {a : α} :
    Format.parse .json d text = .ok a ↔
      d ⟨.text, some 127, []⟩ (Json.Source.ofText text).root = .ok a ∧
        (Json.Source.ofText text).ends = true := by
  have herror (x : Except Refusal α) : x.mapError Failure.json = .ok a ↔ x = .ok a := by
    cases x <;> simp [Except.mapError]
  rw [Format.parse, herror, Format.parseJson, bind_ok_iff]
  cases (Json.Source.ofText text).ends with
  | false => simp
  | true => simp [pure, Except.pure, Context.root, Dialect.maxDepth]

theorem parse_ok_iff {α : Type} {d : Decoder α} {text : String} :
    (∃ a, Format.parse .json d text = .ok a) ↔
      (∃ a, d ⟨.text, some 127, []⟩ (Json.Source.ofText text).root = .ok a) ∧
        (Json.Source.ofText text).ends = true := by
  simp only [parse_eq_ok_iff, exists_and_right]

/-- a text is that of a value -/
theorem parse_free_ok_iff (text : String) :
    (∃ v, Format.parse .json Decoder.free text = .ok v) ↔
      (Json.Source.ofText text).root.Readable 127 ∧ (Json.Source.ofText text).ends = true := by
  rw [parse_ok_iff, Decoder.free_ok_iff (Json.literal_ofText text)]

/-- the texts that a decoder accepts -/
theorem Accepts.parse {α : Type} {d : Decoder α} {p : Shape} (h : Accepts d p) (text : String) :
    (∃ a, Format.parse .json d text = .ok a) ↔
      (∃ v, Format.parse .json Decoder.free text = .ok v) ∧ p (Json.Source.ofText text).root := by
  rw [parse_free_ok_iff, parse_ok_iff, h _ _ _ (Json.literal_ofText text)]
  exact and_right_comm

namespace DesignDefinition

/-- **Texts that define a design.** A text is that of a value if its tree has no fault, its numbers
are in range, no more than 127 levels have to be entered and nothing follows.  It is decoded exactly
if it is that of a value, and the value follows the schema. -/
theorem decoded_iff_schema (text : String) :
    ((∃ v, Format.parse .json Decoder.free text = .ok v) ↔
        (Json.Source.ofText text).root.Readable 127 ∧ (Json.Source.ofText text).ends = true) ∧
      ((∃ d, Format.parse .json decoder text = .ok d) ↔
        (∃ v, Format.parse .json Decoder.free text = .ok v) ∧
          Shape.design true (Json.Source.ofText text).root) :=
  ⟨parse_free_ok_iff text, accepts.parse text⟩

/-- an array of a single string defines a design, although it is no object -/
theorem decoded_from_array :
    (∃ v, Format.parse .json Decoder.free "[\"User\"]" = .ok v) ∧
      (∃ d, Format.parse .json decoder "[\"User\"]" = .ok d) ∧
      ¬ Shape.design false (Json.Source.ofText "[\"User\"]").root := by
  have hsource : Json.Source.ofText "[\"User\"]" = ⟨.sequence [.string (some "User")], true⟩ := by
    cbv
  refine ⟨?_, ?_, ?_⟩
  · rw [parse_ok_iff, hsource]
    exact ⟨⟨_, rfl⟩, rfl⟩
  · rw [parse_ok_iff, hsource]
    exact ⟨⟨_, rfl⟩, rfl⟩
  · rw [hsource]
    simp [Shape.design, Shape.record, Shape.members, Node.object]

end DesignDefinition

end ViewDesign
