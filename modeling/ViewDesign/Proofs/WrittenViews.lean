import ViewDesign.Proofs.Decoding
import ViewDesign.Proofs.Document.Given
import ViewDesign.Proofs.Specifications
import ViewDesign.Proofs.Text.Bytes

/-!
# The views of a definition as its text gives them

A text may give its views in any order and may give a name more than once.  The definition that is
decoded from it has every name once, in the order of the bytes, and with the options of the last
occurrence.  One specification, all of them and those that can be evaluated are all told from that.

* `Record.Regular.given_ok`              both forms of a record decode like the members given;
* `DesignDefinition.written`             the views of a text;
* `DesignDefinition.views_of_written`    the view of a name is that of its last occurrence;
* `DesignDefinition.specs_of_text`       all specifications of a text.
-/

namespace ViewDesign

namespace Record

variable {σ : Type} {r : Record σ}

/-- a record is decoded from what its tree gives to its fields, in either form -/
theorem Regular.given_ok (h : r.Regular) {fields : List (String × Shape)} {required : List String}
    (haccepts : Accepts r.decoder (Shape.record true fields required))
    (hlength : fields.length = r.fields.length) {depth : Nat} {path : Path} {node : Node}
    (hnode : node.Literal) {s : σ} (hs : r.decoder ⟨.text, some depth, path⟩ node = .ok s) :
    r.decoder ⟨.text, some depth, path⟩ (.object (r.given node)) = .ok s ∧
      ∀ m ∈ r.given node, m.2.Literal := by
  obtain ⟨-, ⟨ms, rfl, -⟩ | ⟨-, items, rfl, hle, -⟩⟩ := (haccepts depth path node hnode).mp ⟨s, hs⟩
  · rw [given_object]
    exact ⟨hs, Node.literal_object.mp hnode⟩
  · have hitems := Node.literalItems_iff.mp hnode
    refine ⟨(h.sequence_iff_object haccepts hitems (hlength ▸ hle)).mp hs, fun m hm => ?_⟩
    exact hitems m.2 (List.of_mem_zip hm).2

end Record

namespace DesignDefinition

/-! ## The parts of a definition -/

theorem change_cases {k : String} {ctx : Context} {node : Node}
    {c : DesignDefinition → DesignDefinition} (h : record.change k ctx node = .ok c) :
    (k = "model" ∧ ∃ t, Decoder.text ctx node = .ok t ∧ c = fun d => { d with model := t }) ∨
      (k = "views" ∧ ∃ m, Decoder.names ViewDefinition.record.decoder ctx node = .ok m ∧
        c = fun d => { d with views := m }) := by
  obtain ⟨f, hf, rfl, hread⟩ := Record.field_of_change h
  simp only [record, List.mem_cons, List.not_mem_nil, or_false] at hf
  rcases hf with rfl | rfl
  · obtain ⟨t, ht, rfl⟩ := Decoder.map_ok_iff.mp hread
    exact .inl ⟨rfl, t, ht, rfl⟩
  · obtain ⟨m, hm, rfl⟩ := Decoder.map_ok_iff.mp hread
    exact .inr ⟨rfl, m, hm, rfl⟩

theorem parts_of_object {ctx : Context} {ms : List (String × Node)} {d : DesignDefinition}
    (h : decoder ctx (.object ms) = .ok d) : ∃ inner, ctx.enter = .ok inner ∧
      (∃ node, Entries.get? "model" ms = some node ∧
        Decoder.text (inner.member "model") node = .ok d.model) ∧
      ((Entries.get? "views" ms = none ∧ d.views = .empty) ∨
        ∃ node, Entries.get? "views" ms = some node ∧
          Decoder.names ViewDefinition.record.decoder (inner.member "views") node =
            .ok d.views) := by
  obtain ⟨inner, henter, cs, hcs, hnodup, hrequired, rfl⟩ := (Record.object_iff rfl).mp h
  refine ⟨inner, henter, ?_, ?_⟩
  -- of the two fields only the one of this name touches this part
  · have hmodel := Record.part_of_changes model "model"
      (Q := fun node t => Decoder.text (inner.member "model") node = .ok t) ?_ ?_ hcs hnodup
      record.blank
    · rcases hmodel with ⟨hnone, -⟩ | hsome
      · exact absurd (hrequired "model" (List.mem_singleton_self _))
          (Entries.get?_eq_none_iff.mp hnone)
      · exact hsome
    · rintro ⟨_, node⟩ ⟨_, c⟩ ⟨-, hc⟩ rfl s
      rcases change_cases hc with ⟨-, t, ht, rfl⟩ | ⟨hk, -⟩
      · exact ht
      · exact absurd hk (show "model" ≠ "views" by decide)
    · rintro ⟨k, node⟩ ⟨_, c⟩ ⟨-, hc⟩ hk s
      rcases change_cases hc with ⟨hmodel, -⟩ | ⟨-, m, -, rfl⟩
      · exact absurd hmodel hk
      · rfl
  · refine Record.part_of_changes views "views"
      (Q := fun node m => Decoder.names ViewDefinition.record.decoder (inner.member "views") node =
        .ok m) ?_ ?_ hcs hnodup record.blank
    · rintro ⟨_, node⟩ ⟨_, c⟩ ⟨-, hc⟩ rfl s
      rcases change_cases hc with ⟨hk, -⟩ | ⟨-, m, hm, rfl⟩
      · exact absurd hk (show "views" ≠ "model" by decide)
      · exact hm
    · rintro ⟨k, node⟩ ⟨_, c⟩ ⟨-, hc⟩ hk s
      rcases change_cases hc with ⟨-, t, -, rfl⟩ | ⟨hviews, -⟩
      · rfl
      · exact absurd hviews hk

/-! ## The views of a text -/

/-- What a text gives to the fields of a definition. -/
def givenBy (text : String) : List (String × Node) :=
  record.given (Json.Source.ofText text).root

/-- The views that a text gives, in its order and with repeated ones. -/
def written (text : String) : List (String × Node) :=
  ((Entries.get? "views" (givenBy text)).map Node.members).getD []

/-- The definition of a view is decoded from what is written under its name. -/
def Defines (m : String × Node) (e : String × ViewDefinition) : Prop :=
  e.1 = m.1 ∧ ViewDefinition.record.decoder (.root .text) m.2 = .ok e.2

/-- where a view stands makes no difference -/
theorem decoded_at_root {depth : Nat} {path : Path} {node : Node} {v : ViewDefinition}
    (hnode : node.Literal) (hle : depth ≤ 127)
    (h : ViewDefinition.record.decoder ⟨.text, some depth, path⟩ node = .ok v) :
    ViewDefinition.record.decoder (.root .text) node = .ok v := by
  have hread := ((ViewDefinition.accepts depth path node hnode).mp ⟨v, h⟩).1
  have hself := node.matches_self hnode depth hread
  refine (ViewDefinition.regular.decoder_steady _ _ hself _ _ ⟨by rintro ⟨⟩, ?_⟩ ⟨by rintro ⟨⟩, ?_⟩
    v).mp h
  · rintro _ ⟨⟩
    exact hread
  · rintro _ ⟨⟩
    exact node.readable_mono hle hread

theorem defines_of_names {depth : Nat} {path : Path} {node : Node} {views : NameMap ViewDefinition}
    (hnode : node.Literal) (hle : depth ≤ 127)
    (h : Decoder.names ViewDefinition.record.decoder ⟨.text, some depth, path⟩ node = .ok views) :
    ∃ es, List.Forall₂ Defines node.members es ∧ views.entries = Entries.ofList es := by
  obtain ⟨hread, ms, rfl, -⟩ := (ViewDefinition.accepts.names depth path node hnode).mp ⟨views, h⟩
  obtain ⟨inner, henter, es, hes, hentries⟩ := Decoder.names_object_iff.mp h
  cases depth with
  | zero => cases henter
  | succ depth =>
    cases henter
    refine ⟨es, ?_, hentries⟩
    rw [Node.members_object]
    have hall := (List.forall₂_and_left ms es).mpr ⟨Node.literal_object.mp hnode, hes⟩
    refine hall.imp fun m e hentry => ⟨hentry.2.1, ?_⟩
    exact decoded_at_root hentry.1 (Nat.le_of_succ_le hle) hentry.2.2

/-- **Views.** The views of a definition are those of its text, written one after the other. -/
theorem views_of_written {text : String} {d : DesignDefinition}
    (h : Format.parse .json decoder text = .ok d) :
    Entries.get? "model" (givenBy text) = some (.string (some d.model)) ∧
      ∃ es, List.Forall₂ Defines (written text) es ∧ d.views.entries = Entries.ofList es := by
  obtain ⟨hobject, hgiven⟩ :=
    regular.given_ok accepts rfl (Json.literal_ofText text) (parse_eq_ok_iff.mp h).1
  obtain ⟨inner, henter, ⟨model, hmodel, htext⟩, hviews⟩ := parts_of_object hobject
  cases henter
  constructor
  · have hliteral : model.Literal := hgiven _ (Entries.mem_of_get? hmodel)
    rw [Decoder.text_ok_iff] at htext
    · rw [givenBy, hmodel, htext]
    · rintro t rfl
      exact hliteral
  · unfold written givenBy
    rcases hviews with ⟨hnone, hempty⟩ | ⟨node, hsome, hnames⟩
    · rw [hnone, hempty]
      exact ⟨[], .nil, rfl⟩
    · rw [hsome]
      exact defines_of_names (hgiven _ (Entries.mem_of_get? hsome)) (by decide) hnames

/-- the view of a name is the one that is written last under it -/
theorem view_of_written {text : String} {d : DesignDefinition}
    (h : Format.parse .json decoder text = .ok d) (n : String) :
    (Entries.get? n (written text).reverse = none ∧ d.views.get? n = none) ∨
      ∃ node v, Entries.get? n (written text).reverse = some node ∧ d.views.get? n = some v ∧
        ViewDefinition.record.decoder (.root .text) node = .ok v := by
  obtain ⟨-, es, hes, hentries⟩ := views_of_written h
  have hlast : d.views.get? n = Entries.get? n es.reverse := by
    rw [NameMap.get?, hentries, Entries.get?_ofList]
  rw [hlast]
  rcases Entries.get?_of_forall₂ (List.forall₂_reverse_iff.mpr hes) (fun _ _ h => h.1.symm) n with
    hnone | ⟨node, v, hnode, hv, hdefines⟩
  · exact .inl hnone
  · exact .inr ⟨node, v, hnode, hv, hdefines.2⟩

/-! ## Specifications -/

/-- What is told of the specification of a name, by what is written last under the name. -/
structure Specifies (d : DesignDefinition) (n : String) (node : Node) (s : ViewSpec) : Prop where
  spec : d.spec n = .ok s
  /-- of all specifications it is the only one of the name -/
  only : ∀ t, t ∈ d.specs ∧ t.name = n ↔ t = s
  owner : s.ownerClass = d.model
  options : ViewDefinition.record.decoder (.root .text) node = .ok ⟨s.view, s.query⟩
  evaluated : d.evaluable (some n) = .ok [s]

theorem specifies_of_view {d : DesignDefinition} {n : String} {node : Node} {v : ViewDefinition}
    (hv : d.views.get? n = some v)
    (hnode : ViewDefinition.record.decoder (.root .text) node = .ok v) :
    Specifies d n node (d.specOf n v) := by
  have hspec : d.spec n = .ok (d.specOf n v) := by rw [spec, hv]
  refine ⟨hspec, fun t => ?_, rfl, hnode, by rw [evaluable, hspec]; rfl⟩
  constructor
  · rintro ⟨hmem, rfl⟩
    exact Except.ok.inj ((mem_specs.mp hmem).symm.trans hspec)
  · rintro rfl
    exact ⟨mem_specs.mpr hspec, rfl⟩

theorem specifies_of_written {text : String} {d : DesignDefinition}
    (h : Format.parse .json decoder text = .ok d) {n : String}
    (hn : n ∈ (written text).map Prod.fst) :
    ∃ node s, Entries.get? n (written text).reverse = some node ∧ Specifies d n node s := by
  rcases view_of_written h n with ⟨hnone, -⟩ | ⟨node, v, hlast, hv, hnode⟩
  · rw [Entries.get?_eq_none_iff, List.map_reverse, List.mem_reverse] at hnone
    exact absurd hn hnone
  · exact ⟨node, d.specOf n v, hlast, specifies_of_view hv hnode⟩

theorem spec_of_unwritten {text : String} {d : DesignDefinition}
    (h : Format.parse .json decoder text = .ok d) {n : String}
    (hn : n ∉ (written text).map Prod.fst) : d.spec n = .error (.noSuchView d.model n) := by
  rcases view_of_written h n with ⟨-, hnone⟩ | ⟨node, -, hlast, -, -⟩
  · rw [spec, hnone]
  · rw [← List.mem_reverse, ← List.map_reverse, ← Entries.get?_eq_none_iff, hlast] at hn
    cases hn

theorem mem_names_iff_written {text : String} {d : DesignDefinition}
    (h : Format.parse .json decoder text = .ok d) (n : String) :
    n ∈ d.specs.map ViewSpec.name ↔ n ∈ (written text).map Prod.fst := by
  constructor
  · intro hmem
    obtain ⟨s, hs, rfl⟩ := List.mem_map.mp hmem
    by_contra hn
    cases (mem_specs.mp hs).symm.trans (spec_of_unwritten h hn)
  · intro hn
    obtain ⟨_, s, -, hs⟩ := specifies_of_written h hn
    obtain ⟨hmem, hname⟩ := (hs.only s).mpr rfl
    exact List.mem_map.mpr ⟨s, hmem, hname⟩

/-- **Specifications.** The names of all specifications of a text are those that are written in it,
ascending by their bytes.  The specification of such a name is the only one of the name; it is of
the model of the text and has the options that are written last under the name.  Any other name has
none.  Those that are evaluated are the one of a name, or all in JavaScript. -/
theorem specs_of_text {text : String} {d : DesignDefinition}
    (h : Format.parse .json decoder text = .ok d) :
    Entries.get? "model" (givenBy text) = some (.string (some d.model)) ∧
      (d.specs.map ViewSpec.name).Pairwise Bytes.Less ∧
      (∀ n, n ∈ d.specs.map ViewSpec.name ↔ n ∈ (written text).map Prod.fst) ∧
      (∀ n, n ∈ (written text).map Prod.fst → ∃ node s,
        Entries.get? n (written text).reverse = some node ∧ Specifies d n node s) ∧
      (∀ n, n ∉ (written text).map Prod.fst → d.spec n = .error (.noSuchView d.model n) ∧
        d.evaluable (some n) = .error (.noSuchView d.model n)) ∧
      d.evaluable none = .ok (d.specs.filter fun s => s.language = .javaScript) := by
  refine ⟨(views_of_written h).1, (ascending_specs d).imp Bytes.less_iff.mpr,
    mem_names_iff_written h, fun n => specifies_of_written h, fun n hn => ?_, rfl⟩
  have hspec := spec_of_unwritten h hn
  refine ⟨hspec, ?_⟩
  rw [evaluable, hspec]
  rfl

/-- A text that gives a view twice, both times around a name that is lesser by its bytes. -/
def repeatedText : String :=
  "\x7b\"views\":\x7b\"𝄞\":[],\"ﬀ\":[],\"𝄞\":[[null,null,null,\"erlang\"]]\x7d,\"model\":\"M\"\x7d"

/-- The views that it gives. -/
def repeatedViews : List (String × Node) :=
  [("𝄞", .sequence []), ("ﬀ", .sequence []),
    ("𝄞", .sequence [.sequence [.null, .null, .null, .string (some "erlang")]])]

/-- the second occurrence counts -/
theorem specs_of_text_repeated :
    ∃ d, Format.parse .json decoder repeatedText = .ok d ∧ d.model = "M" ∧
      (d.specs.map ViewSpec.name).Pairwise Bytes.Less ∧
      (∀ n, n ∈ d.specs.map ViewSpec.name ↔ n ∈ ["𝄞", "ﬀ", "𝄞"]) ∧
      (∃ s, d.spec "𝄞" = .ok s ∧ s.language = .erlang) ∧
      d.spec "" = .error (.noSuchView "M" "") := by
  have hsource : Json.Source.ofText repeatedText =
      ⟨.object [("views", .object repeatedViews), ("model", .string (some "M"))], true⟩ := by
    show _ = Json.Source.mk (.mapping [
      (.string (some "views"), .mapping [(.string (some "𝄞"), .sequence []),
        (.string (some "ﬀ"), .sequence []),
        (.string (some "𝄞"), .sequence [.sequence [.null, .null, .null, .string (some "erlang")]])]),
      (.string (some "model"), .string (some "M"))]) true
    cbv
  have hwritten : written repeatedText = repeatedViews := by
    rw [written, givenBy, hsource]
    rfl
  have hgiven : Entries.get? "model" (givenBy repeatedText) = some (.string (some "M")) := by
    rw [givenBy, hsource]
    rfl
  have hparse : ∃ d, Format.parse .json decoder repeatedText = .ok d := by
    rw [parse_ok_iff, hsource]
    exact ⟨⟨_, rfl⟩, rfl⟩
  obtain ⟨d, hd⟩ := hparse
  obtain ⟨hmodel, hless, hnames, hspec, hunknown, -⟩ := specs_of_text hd
  rw [hwritten] at hnames hspec hunknown
  rw [hgiven, Option.some.injEq, Node.string.injEq, Option.some.injEq] at hmodel
  obtain ⟨node, s, hnode, hs⟩ := hspec "𝄞" (List.mem_cons_self ..)
  have hlast : Entries.get? "𝄞" repeatedViews.reverse =
      some (.sequence [.sequence [.null, .null, .null, .string (some "erlang")]]) := rfl
  rw [hlast, Option.some.injEq] at hnode
  subst hnode
  have hview : s.view = { language := .erlang } := by
    have hdecoded : (⟨{ language := .erlang }, {}⟩ : ViewDefinition) = ⟨s.view, s.query⟩ :=
      Except.ok.inj hs.options
    exact (congrArg ViewDefinition.view hdecoded).symm
  refine ⟨d, hd, hmodel.symm, hless, hnames, ⟨s, hs.spec, by rw [ViewSpec.language, hview]⟩, ?_⟩
  rw [hmodel]
  exact (hunknown "" (by decide)).1

end DesignDefinition

end ViewDesign
