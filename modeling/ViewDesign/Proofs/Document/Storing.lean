import ViewDesign.Design
import ViewDesign.Proofs.Document.Records

/-!
# Definitions and answers survive being stored

What is written for a design definition or for the answer of a query is read back as it was, in
either rendering.  Nothing is lost as long as every part has a written form of its own: an emit
value that is a float or unsupported has none, and a null that is present is read as absent.

* `EmitValue.Storable`, `QueryOptions.Storable`, …    what is asked of the parts;
* `ViewOptions.readsBack`, `QueryOptions.readsBack`, …    each part is read back;
* `stored_forms_read_back`    whole definitions and answers.
-/

namespace ViewDesign

/-! ## View options -/

/-- An emit value that has a written form of its own. -/
def EmitValue.Storable : EmitValue → Prop
  | .float _ => False
  | .unsupported _ => False
  | _ => True

/-- A present value that is told apart from an absent one, and plain. -/
def Json.Storable (v : Json) : Prop := v ≠ .null ∧ v.Plain

theorem walkItems_strings (ctx : Context) (i : Nat) (ps : List String) :
    Decoder.walkItems ctx i (Json.writtenItems (fun n => .numeral (n.literal Json.floatLayout))
      (ps.map .str)) = .ok () := by
  induction ps generalizing i with
  | nil => rfl
  | cons p ps ih => exact ih (i + 1)

theorem mapM_strings (ctx : Context) (ps : List String) :
    (Json.writtenItems (fun n => .numeral (n.literal Json.floatLayout)) (ps.map .str)).mapM
      (Decoder.textOnly? ctx) = some ps := by
  induction ps with
  | nil => rfl
  | cons p ps ih =>
    rw [List.map_cons, Json.writtenItems, List.mapM_cons, ih]
    rfl

theorem Key.readsBack (k : Key) : ReadsBack Key.decoder k.encode k := by
  cases k with
  | single p => exact ⟨by simp only [Key.encode, Json.EachNumber], fun _ _ _ => rfl⟩
  | composite ps =>
    refine ⟨?_, fun depth path hdepth => ?_⟩
    · simp only [Key.encode, Json.EachNumber, Json.eachNumberIn_iff, List.mem_map]
      rintro _ ⟨p, -, rfl⟩
      simp only [Json.EachNumber]
    · rw [Key.encode, Json.nesting] at hdepth
      obtain ⟨n, rfl⟩ : ∃ n, depth = n + 1 := ⟨depth - 1, by omega⟩
      have hwalk := walkItems_strings ⟨.text, some n, path⟩ 0 ps
      have hstrings := mapM_strings ⟨.text, some (n + 1), path⟩ ps
      simp only [Key.encode, Json.tree, Json.written, Key.decoder, Decoder.walkNode, Context.enter,
        hstrings]
      show (Decoder.walkItems ⟨.text, some n, path⟩ 0 _ >>= fun _ => _) = _
      rw [hwalk]
      rfl

theorem EmitValue.plain_encode {v : EmitValue} (h : v.Storable) : v.encode.Plain := by
  cases v with
  | integer i =>
    have hleast : Int64.minValue.toInt = -9223372036854775808 := by decide
    have hmin := i.minValue_le_toInt
    have hmax := i.toInt_lt
    simp only [EmitValue.encode, Json.ofInt, Json.Plain, Json.minInt, Json.maxInt]
    omega
  | property p =>
    simp only [EmitValue.encode, Json.Plain, Json.PlainMembers, and_self, and_true]
    exact List.pairwise_singleton ..
  | default => simp only [EmitValue.encode, Json.Plain]
  | expression s => simp only [EmitValue.encode, Json.Plain]
  | float x => exact h.elim
  | unsupported kind => exact h.elim

theorem EmitValue.ofJson_encode {v : EmitValue} (h : v.Storable) : ofJson v.encode = v := by
  cases v with
  | integer i =>
    have hmin : Int64.minValue.toInt ≤ i.toInt := i.minValue_le_toInt
    have hmax : i.toInt ≤ Int64.maxValue.toInt := i.toInt_le
    simp only [EmitValue.encode, Json.ofInt, ofJson, ofNumber, if_pos (And.intro hmin hmax),
      Int64.ofInt_toInt]
  | property p => rfl
  | default => rfl
  | expression s => rfl
  | float x => exact h.elim
  | unsupported kind => exact h.elim

theorem Language.lookup_name (l : Language) : Language.choices.lookup l.name = some l := by
  cases l <;> decide

theorem ViewOptions.readsBack {o : ViewOptions} (h : o.emitValue.Storable) :
    ReadsBack ViewOptions.decoder o.encode o := by
  refine Record.readsBack (by decide) (by rintro _ ⟨⟩) ?_
  refine .cons (Field.restores_optional (fun _ => rfl) fun k _ => ⟨k.readsBack, ?_⟩) ?_
  · cases k <;> simp [Key.encode]
  refine .cons (Field.restores_optional (fun _ => rfl) fun c _ => ⟨.text c, by simp⟩) ?_
  refine .cons (u := { o with language := .javaScript }) ?_ ?_
  · simp only [Field.Restores]
    cases hv : o.emitValue.isDefault with
    | true =>
      have hdefault := EmitValue.isDefault_iff.mp hv
      simp only [if_true, hdefault]
      rfl
    | false =>
      simp only [Bool.false_eq_true, if_false]
      have hread := ((ReadsBack.free (EmitValue.plain_encode h)).map EmitValue.ofJson).map
        fun v (o : ViewOptions) => { o with emitValue := v }
      rw [EmitValue.ofJson_encode h] at hread
      exact ⟨_, hread, rfl⟩
  exact .cons (Field.restores_always (.choice (Language.lookup_name o.language))) .nil

/-! ## Query options -/

/-- Query options whose free values are all present and plain. -/
structure QueryOptions.Storable (o : QueryOptions) : Prop where
  key : ∀ v, o.key = some v → v.Storable
  keys : ∀ vs, o.keys = some vs → ∀ v ∈ vs, v.Plain
  startKey : ∀ v, o.startKey = some v → v.Storable
  endKey : ∀ v, o.endKey = some v → v.Storable

theorem Stale.lookup_name (s : Stale) : Stale.choices.lookup s.name = some s := by
  cases s <;> decide

theorem Json.Storable.readsBack {v : Json} (h : v.Storable) :
    ReadsBack Decoder.free v v ∧ v ≠ .null := ⟨.free h.2, h.1⟩

theorem QueryOptions.readsBack {o : QueryOptions} (h : o.Storable) :
    ReadsBack QueryOptions.decoder o.encode o := by
  have hflag : ∀ b : Bool, ReadsBack Decoder.flag (.bool b) b ∧ Json.bool b ≠ .null :=
    fun b => ⟨.flag b, by simp⟩
  have htext : ∀ t : String, ReadsBack Decoder.text (.str t) t ∧ Json.str t ≠ .null :=
    fun t => ⟨.text t, by simp⟩
  have hcount : ∀ n : UInt64, ReadsBack Decoder.count (Json.ofCount n) n ∧
      Json.ofCount n ≠ .null := fun n => ⟨.count n, by simp [Json.ofCount, Json.ofInt]⟩
  refine Record.readsBack (by decide) (by rintro _ ⟨⟩) ?_
  -- each step reads back the next of the fifteen fields
  refine .cons (Field.restores_optional (fun _ => rfl) fun b _ => hflag b) ?_
  refine .cons (Field.restores_optional (fun _ => rfl) fun v hv => (h.key v hv).readsBack) ?_
  refine .cons (Field.restores_optional (fun _ => rfl) fun vs hvs => ⟨?_, by simp⟩) ?_
  · have hlist := ReadsBack.list_map fun v hv =>
      show ReadsBack Decoder.free (id v) v from .free (h.keys vs hvs v hv)
    rwa [List.map_id] at hlist
  refine .cons (Field.restores_optional (fun _ => rfl) fun v hv => (h.startKey v hv).readsBack) ?_
  refine .cons (Field.restores_optional (fun _ => rfl) fun t _ => htext t) ?_
  refine .cons (Field.restores_optional (fun _ => rfl) fun v hv => (h.endKey v hv).readsBack) ?_
  refine .cons (Field.restores_optional (fun _ => rfl) fun t _ => htext t) ?_
  refine .cons (Field.restores_optional (fun _ => rfl) fun n _ => hcount n) ?_
  refine .cons (Field.restores_optional (fun _ => rfl) fun n _ => hcount n) ?_
  refine .cons (Field.restores_optional (fun _ => rfl) fun b _ => hflag b) ?_
  refine .cons (Field.restores_optional (fun _ => rfl) fun b _ => hflag b) ?_
  refine .cons (Field.restores_optional (fun _ => rfl) fun n _ => hcount n) ?_
  refine .cons (Field.restores_optional (fun _ => rfl) fun b _ => hflag b) ?_
  refine .cons (Field.restores_optional (fun _ => rfl) fun b _ => hflag b) ?_
  exact .cons (Field.restores_optional (fun _ => rfl) fun s _ =>
    ⟨.choice (Stale.lookup_name s), by simp⟩) .nil

/-! ## Definitions -/

/-- A view definition whose parts can be stored. -/
structure ViewDefinition.Storable (d : ViewDefinition) : Prop where
  emitValue : d.view.emitValue.Storable
  query : d.query.Storable

theorem ViewDefinition.readsBack {d : ViewDefinition} (h : d.Storable) :
    ReadsBack ViewDefinition.record.decoder (ViewDefinition.record.encode d) d := by
  refine Record.readsBack (by decide) (by rintro _ ⟨⟩) ?_
  refine .cons (Field.restores_always (ViewOptions.readsBack h.emitValue)) ?_
  exact .cons (Field.restores_always (QueryOptions.readsBack h.query)) .nil

/-- A design definition all of whose views can be stored. -/
def DesignDefinition.Storable (d : DesignDefinition) : Prop :=
  ∀ e ∈ d.views.entries, e.2.Storable

theorem DesignDefinition.readsBack {d : DesignDefinition} (h : d.Storable) :
    ReadsBack DesignDefinition.decoder d.encode d := by
  refine Record.readsBack (by decide) ?_ ?_
  · intro k hk
    rw [List.mem_singleton.mp hk]
    exact ⟨_, List.mem_cons_self .., rfl, rfl⟩
  refine .cons (Field.restores_always (.text d.model)) ?_
  exact .cons (Field.restores_always (.names fun e he => ViewDefinition.readsBack (h e he))) .nil

/-! ## Answers -/

/-- A row whose values are plain, and whose document, if it has one, is not null. -/
structure Row.Storable (row : Row) : Prop where
  key : row.key.Plain
  value : row.value.Plain
  doc : ∀ v, row.doc = some v → v.Storable

theorem Row.readsBack {row : Row} (h : row.Storable) :
    ReadsBack Row.record.decoder (Row.record.encode row) row := by
  refine Record.readsBack (by decide) (by rintro _ ⟨⟩) ?_
  refine .cons (Field.restores_optional (fun _ => rfl) fun t _ => ⟨.text t, by simp⟩) ?_
  refine .cons (Field.restores_always (.free h.key)) ?_
  refine .cons (Field.restores_always (.free h.value)) ?_
  exact .cons (Field.restores_optional (fun _ => rfl) fun v hv => (h.doc v hv).readsBack) .nil

/-- An answer all of whose rows can be stored. -/
def RowEnvelope.Storable (e : RowEnvelope) : Prop := ∀ row ∈ e.rows, row.Storable

theorem RowEnvelope.readsBack {e : RowEnvelope} (h : e.Storable) :
    ReadsBack RowEnvelope.decoder e.encode e := by
  have hcount : ∀ n : UInt64, ReadsBack Decoder.count (Json.ofCount n) n ∧
      Json.ofCount n ≠ .null := fun n => ⟨.count n, by simp [Json.ofCount, Json.ofInt]⟩
  refine Record.readsBack (by decide) (by rintro _ ⟨⟩) ?_
  refine .cons (Field.restores_optional (fun _ => rfl) fun n _ => hcount n) ?_
  refine .cons (Field.restores_optional (fun _ => rfl) fun n _ => hcount n) ?_
  exact .cons (Field.restores_always (.list_map fun row hrow => Row.readsBack (h row hrow))) .nil

/-- **Definitions and answers survive being stored.**  Both renderings of a definition or an answer
whose parts can be stored, at most 127 levels deep, are read back as it was. -/
theorem stored_forms_read_back :
    (∀ d : DesignDefinition, d.Storable → d.encode.nesting ≤ 127 →
      Format.parse .json DesignDefinition.decoder d.encode.compact = .ok d ∧
        Format.parse .json DesignDefinition.decoder d.encode.pretty = .ok d) ∧
    ∀ e : RowEnvelope, e.Storable → e.encode.nesting ≤ 127 →
      Format.parse .json RowEnvelope.decoder e.encode.compact = .ok e ∧
        Format.parse .json RowEnvelope.decoder e.encode.pretty = .ok e :=
  ⟨fun _ h hdepth => (DesignDefinition.readsBack h).parse hdepth,
    fun _ h hdepth => (RowEnvelope.readsBack h).parse hdepth⟩

/-! ## A definition and an answer -/

/-- A query by a key that is an object. -/
def storedQuery : QueryOptions where
  key := some (.obj [("a", .arr [.num (.int (-2)), .null]), ("b\"\x01", .str "é")])
  limit := some 18446744073709551615
  stale := some .updateAfter

/-- A definition of one view, with quotes and control characters in its names. -/
def storedDefinition : DesignDefinition where
  model := "O'Brien\\\n"
  views := NameMap.empty.insert "by \"name\"" {
    view := { key := some (.composite ["x", ""]), emitValue := .property "\u2028" }
    query := storedQuery }

/-- An answer with a row that has a document and one that has none. -/
def storedAnswer : RowEnvelope where
  totalRows := some 2
  rows := [{ id := some "a", key := .arr [.num (.int 1)], doc := some (.obj []) }, {}]

theorem storable_storedDefinition : storedDefinition.Storable := by
  intro e he
  rw [List.mem_singleton.mp he]
  refine ⟨trivial, ?_, ?_, ?_, ?_⟩
  · rintro _ ⟨⟩
    refine ⟨by simp, ?_⟩
    have horder : Entries.Ascending [("a", Json.arr [.num (.int (-2)), .null]),
        ("b\"\x01", .str "é")] :=
      Entries.ascending_of_names ["a", "b\"\x01"] rfl (by decide)
    simp [Json.Plain, Json.PlainItems, Json.PlainMembers, Json.minInt, Json.maxInt, horder]
  · rintro _ ⟨⟩
  · rintro _ ⟨⟩
  · rintro _ ⟨⟩

theorem storable_storedAnswer : storedAnswer.Storable := by
  have hint : (Json.arr [.num (.int 1)]).Plain := by
    simp [Json.Plain, Json.PlainItems, Json.minInt, Json.maxInt]
  have hempty : (Json.obj []).Storable := by
    simp [Json.Storable, Json.Plain, Json.PlainMembers, Entries.Ascending]
  have hnull : Json.null.Plain := by
    simp [Json.Plain]
  simp only [RowEnvelope.Storable, storedAnswer, List.forall_mem_cons]
  refine ⟨⟨hint, hnull, ?_⟩, ⟨hnull, hnull, ?_⟩, by simp⟩
  · rintro _ ⟨⟩
    exact hempty
  · rintro _ ⟨⟩

/-- both are read back -/
theorem stored_forms_read_back_samples :
    Format.parse .json DesignDefinition.decoder storedDefinition.encode.pretty =
        .ok storedDefinition ∧
      Format.parse .json RowEnvelope.decoder storedAnswer.encode.compact = .ok storedAnswer :=
  ⟨(stored_forms_read_back.1 storedDefinition storable_storedDefinition (by decide)).2,
    (stored_forms_read_back.2 storedAnswer storable_storedAnswer (by decide)).1⟩

end ViewDesign
