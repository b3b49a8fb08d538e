import ViewDesign.Proofs.Document.Storing
import ViewDesign.View.Spec

/-!
# What stored view options generate

View options are turned into a JSON value and read from it again.  All but the emit value come back
as they were.  Of an emit value of an unsupported kind only the fact is left that it is unsupported,
which is all that generating asks.  A float that is not finite has no JSON number and is written as
null; it comes back as the default, so options that were refused are now accepted.

* `ViewOptions.toValue`, `ViewOptions.ofValue`    the value of options, and options from a value;
* `ViewOptions.ofValue_toValue`                   what comes back;
* `EndsAlike`                                     the same text, or a failure of the same kind;
* `ViewSpec.generation_after_storing`             exactly when storing changes nothing.
-/

namespace ViewDesign

/-! ## Records as values -/

/-- A decoder reads a result off a value. -/
def Decoder.ReadsValue {α : Type} (d : Decoder α) (v : Json) (a : α) : Prop :=
  ∀ path, d ⟨.value, none, path⟩ (.ofJson v) = .ok a

namespace Record

variable {σ : Type} {r : Record σ} {s u : σ}

/-- the members of a record, written in ascending order of their names -/
theorem object_writeMembers {fs gs : List (Field σ)} (h : fs.Perm gs)
    (hnames : (gs.map Field.name).Pairwise (· < ·)) (s : σ) :
    Json.object (writeMembers fs s) = .obj (writeMembers gs s) := by
  have hsorted : Entries.Ascending (writeMembers gs s) :=
    List.pairwise_map.mp (hnames.sublist (names_writeMembers gs s))
  exact congrArg Json.obj (Entries.ofList_of_perm (h.filterMap _) hsorted)

/-- a record that lacks no field is read from its value -/
theorem decoder_obj {fs : List (Field σ)} (hrequired : r.required = [])
    (h : Field.AllRestore Decoder.ReadsValue s fs r.blank u)
    (hfs : ∀ f ∈ fs, r.fields.find? (·.name = f.name) = some f)
    (hnames : (fs.map Field.name).Nodup) :
    r.decoder (.root .value) (.ofJson (.obj (writeMembers fs s))) = .ok u := by
  have hreads : ∀ f ∈ fs, ∀ v change, f.write s = some v → f.read.ReadsValue v change →
      f.read (Context.member ⟨.value, none, []⟩ f.name) (.ofJson v) = .ok change :=
    fun f _ v change _ hread => hread _
  have hseen : ∀ f ∈ fs, f.name ∉ ([] : List String) := fun _ _ => List.not_mem_nil
  obtain ⟨met, hread, -⟩ := readMembers_restore h hfs hreads hnames hseen
  rw [← Node.ofMembers_eq_map] at hread
  rw [Node.ofJson]
  show r.readMap ⟨.value, none, []⟩ _ = _
  rw [readMap_complete rfl (by simp [hrequired]), hread]
  rfl

end Record

/-! ## View options as values -/

namespace EmitValue

/-- every written form is a value that is read as it is -/
theorem free_encode (v : EmitValue) (path : Path) :
    Decoder.free ⟨.value, none, path⟩ (.ofJson v.encode) = .ok v.encode := by
  cases v with
  | default => rfl
  | property p => rfl
  | expression e => rfl
  | integer i => rfl
  | float x =>
    simp only [encode, Json.ofFloat]
    split
    · rename_i hfinite
      show Except.ok (Json.ofFloat x) = _
      rw [Json.ofFloat, if_pos hfinite]
    · rfl
  | unsupported kind => rfl

end EmitValue

namespace Key

theorem ofItems_strings (ps : List String) : Node.ofItems (ps.map .str) =
    Json.writtenItems (fun n => .numeral (n.literal Json.floatLayout)) (ps.map .str) := by
  induction ps with
  | nil => rfl
  | cons p ps ih => exact congrArg (Node.string (some p) :: ·) ih

theorem optional_encode (k : Key) (path : Path) :
    Decoder.optional decoder ⟨.value, none, path⟩ (.ofJson k.encode) = .ok (some k) := by
  cases k with
  | single p => rfl
  | composite ps =>
    have hread : decoder ⟨.value, none, path⟩ (.ofJson (.arr (ps.map .str))) =
        .ok (.composite ps) := by
      simp only [decoder, Node.ofJson, ofItems_strings, Decoder.walkNode, Context.enter, bind,
        Except.bind, walkItems_strings, mapM_strings]
    simp only [encode, Node.ofJson, Decoder.optional] at hread ⊢
    rw [hread]
    rfl

end Key

namespace ViewOptions

/-- The JSON value of view options, its members ascending. -/
def toValue (o : ViewOptions) : Json := .object (Record.writeMembers record.fields o)

/-- View options from a JSON value. -/
def ofValue (v : Json) : Except Refusal ViewOptions := decoder (.root .value) (.ofJson v)

/-! The four fields by their names. -/

def keyField : Field ViewOptions :=
  .optional "key" Key.decoder Key.encode (·.key) fun v o => { o with key := v }

def conditionsField : Field ViewOptions :=
  .optional "conditions" Decoder.text .str (·.conditions) fun v o => { o with conditions := v }

def emitValueField : Field ViewOptions where
  name := "emit_value"
  read := EmitValue.decoder.map fun v o => { o with emitValue := v }
  write o := if o.emitValue.isDefault then none else some o.emitValue.encode

def languageField : Field ViewOptions :=
  .always "language" (Decoder.choice Language.choices) (fun l => .str l.name) (·.language)
    fun v o => { o with language := v }

theorem toValue_eq (o : ViewOptions) : o.toValue =
    .obj (Record.writeMembers [conditionsField, emitValueField, keyField, languageField] o) := by
  have hperm : record.fields.Perm [conditionsField, emitValueField, keyField, languageField] :=
    (@List.perm_middle _ keyField [conditionsField, emitValueField] [languageField]).symm
  exact Record.object_writeMembers hperm (by decide) o

variable {o t : ViewOptions}

theorem restores_conditions (h : t.conditions = none) :
    conditionsField.Restores Decoder.ReadsValue o t { t with conditions := o.conditions } := by
  simp only [Field.Restores, conditionsField, Field.optional]
  cases o.conditions with
  | none =>
    show t = { t with conditions := none }
    rw [← h]
  | some c => exact ⟨fun t => { t with conditions := some c }, fun _ => rfl, rfl⟩

theorem restores_emitValue (h : t.emitValue = .default) :
    emitValueField.Restores Decoder.ReadsValue o t
      { t with emitValue := .ofJson o.emitValue.encode } := by
  simp only [Field.Restores, emitValueField]
  cases hv : o.emitValue.isDefault with
  | true =>
    simp only [if_true]
    rw [EmitValue.isDefault_iff.mp hv, EmitValue.encode, EmitValue.ofJson, ← h]
  | false =>
    simp only [Bool.false_eq_true, if_false]
    refine ⟨fun t => { t with emitValue := .ofJson o.emitValue.encode }, fun path => ?_, rfl⟩
    simp only [EmitValue.decoder, Decoder.map, EmitValue.free_encode]
    rfl

theorem restores_key (h : t.key = none) :
    keyField.Restores Decoder.ReadsValue o t { t with key := o.key } := by
  simp only [Field.Restores, keyField, Field.optional]
  cases o.key with
  | none =>
    show t = { t with key := none }
    rw [← h]
  | some k =>
    refine ⟨fun t => { t with key := some k }, fun path => ?_, rfl⟩
    rw [Decoder.map, Key.optional_encode]
    rfl

theorem restores_language :
    languageField.Restores Decoder.ReadsValue o t { t with language := o.language } := by
  refine ⟨fun t => { t with language := o.language }, fun path => ?_, rfl⟩
  show (Decoder.chosen Language.choices _ o.language.name).map _ = _
  rw [Decoder.chosen, Language.lookup_name]
  rfl

/-- **What comes back.**  Everything but the emit value is as it was. -/
theorem ofValue_toValue (o : ViewOptions) :
    ofValue o.toValue = .ok { o with emitValue := .ofJson o.emitValue.encode } := by
  have hall : Field.AllRestore Decoder.ReadsValue o
      [conditionsField, emitValueField, keyField, languageField] {}
      { o with emitValue := .ofJson o.emitValue.encode } :=
    .cons (restores_conditions rfl) (.cons (restores_emitValue rfl) (.cons (restores_key rfl)
      (.cons restores_language .nil)))
  rw [ofValue, toValue_eq]
  refine Record.decoder_obj rfl hall ?_ (by decide)
  simp only [List.forall_mem_cons]
  exact ⟨rfl, rfl, rfl, rfl, by simp⟩

end ViewOptions

/-! ## What is generated -/

/-- Two generations end alike: with the same text, or with failures of the same kind. -/
inductive EndsAlike : Except Failure String → Except Failure String → Prop
  | generated (source : String) : EndsAlike (.ok source) (.ok source)
  | unsupportedEmitValue (kind kind' : String) :
      EndsAlike (.error (.unsupportedEmitValue kind)) (.error (.unsupportedEmitValue kind'))
  | unsupportedFeature (l : Language) (f : Feature) :
      EndsAlike (.error (.unsupportedFeature l f)) (.error (.unsupportedFeature l f))

/-- An emit value that is no float, or a finite one. -/
def EmitValue.IsFinite : EmitValue → Prop
  | .float x => Binary64.isFinite x = true
  | _ => True

/-- what a finite emit value comes back as -/
theorem EmitValue.ofJson_encode_finite {v : EmitValue} (h : v.IsFinite) :
    ofJson v.encode = v ∨
      ∃ kind, v = .unsupported kind ∧ ofJson v.encode = .unsupported "object" := by
  cases v with
  | float x =>
    have hfinite : Binary64.isFinite x = true := h
    exact .inl (by rw [encode, Json.ofFloat, if_pos hfinite]; rfl)
  | unsupported kind => exact .inr ⟨kind, rfl, rfl⟩
  | default => exact .inl rfl
  | property p => exact .inl rfl
  | expression e => exact .inl rfl
  | integer i => exact .inl (ofJson_encode trivial)

/-- a float that is not finite comes back as the default -/
theorem EmitValue.ofJson_encode_infinite {v : EmitValue} (h : ¬ v.IsFinite) :
    ofJson v.encode = .default ∧ ∃ x, v = .float x ∧ Binary64.isFinite x = false := by
  cases v with
  | float x =>
    have hinfinite : ¬ Binary64.isFinite x = true := h
    exact ⟨by rw [encode, Json.ofFloat, if_neg hinfinite]; rfl, x, rfl, by simpa using hinfinite⟩
  | _ => exact absurd trivial h

namespace ViewSpec

/-- The view as it is after its options have been stored. -/
def afterStoring (s : ViewSpec) : ViewSpec :=
  { s with view := { s.view with emitValue := .ofJson s.view.emitValue.encode } }

variable {s : ViewSpec}

/-! Both languages ask little of the emit value. -/

theorem mapFunction_javaScript (h : s.language = .javaScript) :
    s.mapFunction = (MapFunction.JavaScript.emitValue s.view.emitValue).map fun value =>
      String.ofList (MapFunction.JavaScript.frame
        (MapFunction.JavaScript.filter s.ownerClass s.view.conditions)
        (MapFunction.JavaScript.key s.view.key) value) := by
  rw [mapFunction, h]
  simp only [MapFunction.JavaScript.source]
  cases MapFunction.JavaScript.emitValue s.view.emitValue <;>
    simp only [bind, Except.bind, pure, Except.pure, Except.map]

theorem mapFunction_conditions (h : s.language = .erlang) (hc : s.view.conditions.isSome = true) :
    s.mapFunction = .error (.unsupportedFeature .erlang .conditions) := by
  rw [mapFunction, h]
  simp only [MapFunction.Erlang.source, if_pos hc]
  rfl

theorem mapFunction_emitValue (h : s.language = .erlang) (hc : s.view.conditions.isSome = false)
    (hv : s.view.emitValue.isDefault = false) :
    s.mapFunction = .error (.unsupportedFeature .erlang .emitValue) := by
  rw [mapFunction, h]
  simp only [MapFunction.Erlang.source, hc, hv, Bool.false_eq_true, if_false, Bool.not_false,
    if_true]
  rfl

theorem mapFunction_default (hv : s.view.emitValue = .default)
    (h : s.language = .erlang → s.view.conditions.isSome = false) :
    ∃ source, s.mapFunction = .ok source := by
  cases hl : s.language with
  | javaScript =>
    rw [mapFunction_javaScript hl, hv]
    exact ⟨_, rfl⟩
  | erlang =>
    rw [mapFunction, hl]
    simp only [MapFunction.Erlang.source, h hl, hv, EmitValue.isDefault, Bool.false_eq_true,
      if_false, Bool.not_true]
    exact ⟨_, rfl⟩

/-! ## The same after storing -/

theorem endsAlike_self (s : ViewSpec) : EndsAlike s.mapFunction s.mapFunction := by
  cases hl : s.language with
  | javaScript =>
    rw [mapFunction_javaScript hl]
    cases s.view.emitValue with
    | float x =>
      simp only [MapFunction.JavaScript.emitValue]
      split
      · exact .generated _
      · exact .unsupportedEmitValue _ _
    | unsupported kind => exact .unsupportedEmitValue _ _
    | default => exact .generated _
    | property p => exact .generated _
    | expression e => exact .generated _
    | integer i => exact .generated _
  | erlang =>
    cases hc : s.view.conditions.isSome with
    | true =>
      rw [mapFunction_conditions hl hc]
      exact .unsupportedFeature _ _
    | false =>
      cases hv : s.view.emitValue.isDefault with
      | false =>
        rw [mapFunction_emitValue hl hc hv]
        exact .unsupportedFeature _ _
      | true =>
        have hdefault := EmitValue.isDefault_iff.mp hv
        obtain ⟨source, hsource⟩ := mapFunction_default hdefault fun _ => hc
        rw [hsource]
        exact .generated _

/-- of an unsupported value it does not matter what kind it is -/
theorem endsAlike_unsupported {t : ViewSpec} {kind kind' : String} (hl : s.language = t.language)
    (hc : s.view.conditions = t.view.conditions) (hs : s.view.emitValue = .unsupported kind)
    (ht : t.view.emitValue = .unsupported kind') : EndsAlike s.mapFunction t.mapFunction := by
  cases hlanguage : t.language with
  | javaScript =>
    rw [mapFunction_javaScript (hl.trans hlanguage), mapFunction_javaScript hlanguage, hs, ht]
    exact .unsupportedEmitValue _ _
  | erlang =>
    cases hconditions : t.view.conditions.isSome with
    | true =>
      rw [mapFunction_conditions (hl.trans hlanguage) (hc ▸ hconditions),
        mapFunction_conditions hlanguage hconditions]
      exact .unsupportedFeature _ _
    | false =>
      rw [mapFunction_emitValue (hl.trans hlanguage) (hc ▸ hconditions) (by rw [hs]; rfl),
        mapFunction_emitValue hlanguage hconditions (by rw [ht]; rfl)]
      exact .unsupportedFeature _ _

theorem endsAlike_of_isFinite (h : s.view.emitValue.IsFinite) :
    EndsAlike s.mapFunction s.afterStoring.mapFunction := by
  rcases EmitValue.ofJson_encode_finite h with hsame | ⟨kind, hkind, hobject⟩
  · have hs : s.afterStoring = s := by rw [afterStoring, hsame]
    rw [hs]
    exact endsAlike_self s
  · exact endsAlike_unsupported rfl rfl hkind hobject

/-- a float that is not finite is refused before it is stored, and only then -/
theorem generated_of_not_isFinite (h : ¬ s.view.emitValue.IsFinite)
    (hc : s.language = .erlang → s.view.conditions.isSome = false) :
    (∃ e, s.mapFunction = .error e) ∧ ∃ source, s.afterStoring.mapFunction = .ok source := by
  obtain ⟨hdefault, x, hx, hfinite⟩ := EmitValue.ofJson_encode_infinite h
  refine ⟨?_, mapFunction_default hdefault hc⟩
  cases hl : s.language with
  | javaScript =>
    rw [mapFunction_javaScript hl, hx]
    simp only [MapFunction.JavaScript.emitValue, hfinite, Bool.false_eq_true, if_false]
    exact ⟨_, rfl⟩
  | erlang => exact ⟨_, mapFunction_emitValue hl (hc hl) (by rw [hx]; rfl)⟩

/-- **What stored options generate.**  Stored options are always read back.  They generate the same
text, or fail with the same kind of failure, exactly if the emit value is no float or a finite one,
or if they are refused for their conditions anyway; otherwise they were refused and are now
accepted. -/
theorem generation_after_storing (s : ViewSpec) :
    ∃ o, ViewOptions.ofValue s.view.toValue = .ok o ∧
      (EndsAlike s.mapFunction ({ s with view := o } : ViewSpec).mapFunction ↔
        s.view.emitValue.IsFinite ∨ s.language = .erlang ∧ s.view.conditions.isSome = true) ∧
      ((∃ e, s.mapFunction = .error e) ∧
          (∃ source, ({ s with view := o } : ViewSpec).mapFunction = .ok source) ↔
        ¬ (s.view.emitValue.IsFinite ∨
          s.language = .erlang ∧ s.view.conditions.isSome = true)) := by
  refine ⟨_, s.view.ofValue_toValue, ?_⟩
  show (EndsAlike s.mapFunction s.afterStoring.mapFunction ↔ _) ∧
    ((∃ e, s.mapFunction = .error e) ∧ (∃ source, s.afterStoring.mapFunction = .ok source) ↔ _)
  by_cases h : s.view.emitValue.IsFinite ∨ s.language = .erlang ∧ s.view.conditions.isSome = true
  · have halike : EndsAlike s.mapFunction s.afterStoring.mapFunction := by
      rcases h with h | ⟨hl, hc⟩
      · exact endsAlike_of_isFinite h
      · rw [mapFunction_conditions hl hc, mapFunction_conditions (s := s.afterStoring) hl hc]
        exact .unsupportedFeature _ _
    refine ⟨iff_of_true halike h, iff_of_false ?_ (not_not.mpr h)⟩
    rintro ⟨⟨e, he⟩, source, hsource⟩
    rw [he, hsource] at halike
    cases halike
  · rw [not_or, not_and, Bool.not_eq_true] at h
    obtain ⟨⟨e, he⟩, source, hsource⟩ := generated_of_not_isFinite h.1 h.2
    refine ⟨iff_of_false ?_ ?_, iff_of_true ⟨⟨e, he⟩, source, hsource⟩ ?_⟩
    · intro halike
      rw [he, hsource] at halike
      cases halike
    · simpa using h
    · simpa using h

/-- A view whose emit value is not a number. -/
def unnumbered (l : Language) : ViewSpec where
  ownerClass := "User"
  name := "all"
  view := { emitValue := .float (0 / 0), language := l }

/-- **Storing loses what is not a number.**  In both languages the view is refused, its options are
stored with null as the emit value, and what is read back generates a map function. -/
theorem not_a_number_lost :
    (unnumbered .javaScript).view.toValue =
        .obj [("emit_value", .null), ("language", .str "javascript")] ∧
      ViewOptions.ofValue (unnumbered .javaScript).view.toValue = .ok {} ∧
      (unnumbered .javaScript).mapFunction = .error (.unsupportedEmitValue "float NaN") ∧
      (∃ source, ({ unnumbered .javaScript with view := {} } : ViewSpec).mapFunction =
        .ok source) ∧
      ViewOptions.ofValue (unnumbered .erlang).view.toValue = .ok { language := .erlang } ∧
      (unnumbered .erlang).mapFunction = .error (.unsupportedFeature .erlang .emitValue) ∧
      ∃ source, ({ unnumbered .erlang with view := { language := .erlang } } :
        ViewSpec).mapFunction = .ok source := by
  have hfinite : Binary64.isFinite (0 / 0) = false := by decide
  have htext : EmitValue.floatLayout.float (0 / 0) = "NaN" := by decide
  have hencode : (EmitValue.float (0 / 0)).encode = .null := by
    rw [EmitValue.encode, Json.ofFloat, hfinite]
    rfl
  refine ⟨?_, ?_, ?_, mapFunction_default rfl (fun _ => rfl), ?_,
    mapFunction_emitValue rfl rfl rfl, mapFunction_default rfl (fun _ => rfl)⟩
  · rw [ViewOptions.toValue_eq]
    simp [unnumbered, Record.writeMembers, ViewOptions.conditionsField,
      ViewOptions.emitValueField, ViewOptions.keyField, ViewOptions.languageField, Field.optional,
      Field.always, EmitValue.isDefault, hencode, Language.name]
  · rw [ViewOptions.ofValue_toValue]
    simp [unnumbered, hencode, EmitValue.ofJson]
  · rw [mapFunction_javaScript rfl]
    simp [unnumbered, MapFunction.JavaScript.emitValue, hfinite, htext, Except.map]
  · rw [ViewOptions.ofValue_toValue]
    simp [unnumbered, hencode, EmitValue.ofJson]

end ViewSpec

end ViewDesign
