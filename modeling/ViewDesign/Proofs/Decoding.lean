import Mathlib.Logic.Relation
import ViewDesign.Proofs.DesignSchema
import ViewDesign.Proofs.Document.Regular
import ViewDesign.Proofs.Document.Values
import ViewDesign.Proofs.Json.Composed

/-!
# Decoding does not depend on how a record is written

A text may give the members of its objects in any order, it may be decoded at once or read as a
value first, and a record may be an array of the values of its leading fields instead of an object.
None of this makes a difference to what is decoded, or to whether anything is.

* `Json.Rearranged`         the members of one object of a text in another order;
* `Json.rearranged_trees`   the trees of such texts have the same value;
* `Steady.parse_iff`        a text is decoded like its value;
* `Record.Independent`      what decoding a record does not depend on;
* `decoding_independent`    none of the records depends on it.
-/

namespace ViewDesign

namespace Json

/-! ## Rearranged texts -/

/-- The members of one object somewhere in a text are put into another order. -/
inductive Rearranged : List Char → List Char → Prop
  /-- the text is that of the object -/
  | members {ms ms' : List (List Char × List Char)} (names : ∀ m ∈ ms, IsName m.1)
      (values : ∀ m ∈ ms, IsValue m.2) (perm : ms.Perm ms') :
      Rearranged (objectText ms) (objectText ms')
  /-- the object is in an element of an array -/
  | item {before after : List (List Char)} {v v' : List Char}
      (values : ∀ w ∈ before ++ after, IsValue w) (inner : Rearranged v v') :
      Rearranged (arrayText (before ++ v :: after)) (arrayText (before ++ v' :: after))
  /-- the object is in the value of a member -/
  | member {before after : List (List Char × List Char)} {k v v' : List Char} (name : IsName k)
      (names : ∀ m ∈ before ++ after, IsName m.1) (values : ∀ m ∈ before ++ after, IsValue m.2)
      (inner : Rearranged v v') :
      Rearranged (objectText (before ++ (k, v) :: after)) (objectText (before ++ (k, v') :: after))
  /-- blanks stand around the value -/
  | blanks {b e cs cs' : List Char} (before : AllBlank b) (after : AllBlank e)
      (inner : Rearranged cs cs') : Rearranged (b ++ cs ++ e) (b ++ cs' ++ e)

/-- A text with the members of any of its objects in another order. -/
def Rearrangement (text text' : String) : Prop :=
  Relation.ReflTransGen Rearranged text.toList text'.toList

/-- No object of a text has a name twice. -/
structure DistinctNames (text : String) : Prop where
  root : (Source.ofText text).root.Distinct

theorem isValue_of_source {cs : List Char} {node : Node} (h : Source.ofChars cs = ⟨node, true⟩) :
    IsValue cs ∧ treeOf cs = node := by
  unfold IsValue treeOf
  rw [h]
  exact ⟨rfl, rfl⟩

theorem Rearranged.trees {cs cs' : List Char} (h : Rearranged cs cs') :
    IsValue cs ∧ IsValue cs' ∧ (treeOf cs).Alike (treeOf cs') := by
  -- on the rearrangement: every step leaves the text a value, and its tree the same but for the
  -- order of the members it moves
  induction h with
  | @members ms ms' names values perm =>
    obtain ⟨hvalue, htree⟩ := isValue_of_source (ofChars_objectText names values)
    obtain ⟨hvalue', htree'⟩ := isValue_of_source (ofChars_objectText
      (fun m hm => names m (perm.mem_iff.mpr hm)) fun m hm => values m (perm.mem_iff.mpr hm))
    refine ⟨hvalue, hvalue', ?_⟩
    rw [htree, htree']
    exact .perm (perm.map _)
  | @item before after v v' values _ ih =>
    obtain ⟨hv, hv', halike⟩ := ih
    rw [List.forall_mem_append] at values
    have hall : ∀ u, IsValue u → ∀ w ∈ before ++ u :: after, IsValue w := by
      intro u hu
      rw [List.forall_mem_append, List.forall_mem_cons]
      exact ⟨values.1, hu, values.2⟩
    obtain ⟨hvalue, htree⟩ := isValue_of_source (ofChars_arrayText (hall v hv))
    obtain ⟨hvalue', htree'⟩ := isValue_of_source (ofChars_arrayText (hall v' hv'))
    refine ⟨hvalue, hvalue', ?_⟩
    rw [htree, htree', List.map_append, List.map_append, List.map_cons, List.map_cons]
    exact halike.item _ _
  | @member before after k v v' name names values _ ih =>
    obtain ⟨hv, hv', halike⟩ := ih
    rw [List.forall_mem_append] at names values
    have hnames : ∀ u, ∀ m ∈ before ++ (k, u) :: after, IsName m.1 := by
      intro u
      rw [List.forall_mem_append, List.forall_mem_cons]
      exact ⟨names.1, name, names.2⟩
    have hall : ∀ u, IsValue u → ∀ m ∈ before ++ (k, u) :: after, IsValue m.2 := by
      intro u hu
      rw [List.forall_mem_append, List.forall_mem_cons]
      exact ⟨values.1, hu, values.2⟩
    obtain ⟨hvalue, htree⟩ := isValue_of_source (ofChars_objectText (hnames v) (hall v hv))
    obtain ⟨hvalue', htree'⟩ := isValue_of_source (ofChars_objectText (hnames v') (hall v' hv'))
    refine ⟨hvalue, hvalue', ?_⟩
    rw [htree, htree', List.map_append, List.map_append, List.map_cons, List.map_cons]
    exact halike.member _ _ _
  | blanks before after _ ih =>
    obtain ⟨hv, hv', halike⟩ := ih
    obtain ⟨hvalue, htree⟩ := isValue_of_source (ofChars_blanks before after hv)
    obtain ⟨hvalue', htree'⟩ := isValue_of_source (ofChars_blanks before after hv')
    refine ⟨hvalue, hvalue', ?_⟩
    rw [htree, htree']
    exact halike

/-- **Rearranged texts.** They end where they did, and their trees have the same value. -/
theorem rearranged_trees {text text' : String} (h : Rearrangement text text') :
    (Source.ofText text).ends = (Source.ofText text').ends ∧
      (Source.ofText text).root.Alike (Source.ofText text').root := by
  unfold Rearrangement at h
  unfold Source.ofText
  generalize text'.toList = cs at h
  induction h with
  | refl => exact ⟨rfl, .refl _⟩
  | tail _ hstep ih =>
    obtain ⟨hvalue, hvalue', halike⟩ := hstep.trees
    exact ⟨ih.1.trans (hvalue.trans hvalue'.symm), ih.2.trans halike⟩

end Json

/-! ## Texts and values -/

namespace Steady

variable {α : Type} {d : Decoder α} {p : Shape}

theorem parse_free_iff {text : String} {v : Json} :
    Format.parse .json Decoder.free text = .ok v ↔
      ((Json.Source.ofText text).root.Readable 127 ∧ v = (Json.Source.ofText text).root.value) ∧
        (Json.Source.ofText text).ends = true := by
  rw [parse_eq_ok_iff, Node.free_iff_value (Json.literal_ofText text)]

/-- **Texts and values.** A text in which no name is repeated is decoded like its value. -/
theorem parse_iff (h : Steady d) (haccepts : Accepts d p) {text : String}
    (hdistinct : Json.DistinctNames text) {a : α} :
    Format.parse .json d text = .ok a ↔
      ∃ v, Format.parse .json Decoder.free text = .ok v ∧
        d (.root .value) (.ofJson v) = .ok a := by
  have hliteral := Json.literal_ofText text
  have hsame : (Json.Source.ofText text).root.Readable 127 →
      (d ⟨.text, some 127, []⟩ (Json.Source.ofText text).root = .ok a ↔
        d (.root .value) (.ofJson (Json.Source.ofText text).root.value) = .ok a) := by
    intro hread
    refine h _ _ (Node.matches_value _ hliteral 127 hread hdistinct.root) _ _ ⟨by rintro ⟨⟩, ?_⟩
      ⟨by rintro ⟨⟩, by rintro _ ⟨⟩⟩ a
    rintro _ ⟨⟩
    exact hread
  rw [parse_eq_ok_iff]
  simp only [parse_free_iff]
  constructor
  · rintro ⟨ha, hends⟩
    have hread := ((haccepts 127 [] _ hliteral).mp ⟨a, ha⟩).1
    exact ⟨_, ⟨⟨hread, rfl⟩, hends⟩, (hsame hread).mp ha⟩
  · rintro ⟨_, ⟨⟨hread, rfl⟩, hends⟩, ha⟩
    exact ⟨(hsame hread).mpr ha, hends⟩

theorem parse_rearranged (h : Steady d) (haccepts : Accepts d p) {text text' : String}
    (hdistinct : Json.DistinctNames text) (hsame : Json.Rearrangement text text') {a : α} :
    Format.parse .json d text = .ok a ↔ Format.parse .json d text' = .ok a := by
  obtain ⟨hends, halike⟩ := Json.rearranged_trees hsame
  have hdistinct' : Json.DistinctNames text' := ⟨halike.distinct.mp hdistinct.root⟩
  simp only [h.parse_iff haccepts hdistinct, h.parse_iff haccepts hdistinct', parse_free_iff, hends,
    halike.readable, halike.value hdistinct.root]

end Steady

/-! ## Values in order -/

namespace Record

variable {σ : Type} {r : Record σ} {p : Shape}

/-- The names of members are spelled out as the names of the leading fields. -/
def Leading (r : Record σ) (ms : List (List Char × List Char)) : Prop :=
  List.Forall₂ (fun m k => Json.Source.ofChars m.1 = ⟨.string (some k), true⟩) ms
    (r.names.take ms.length)

/-- in a text, values in order decode like members, whether they can be read or not -/
theorem Regular.sequence_iff_object (h : r.Regular) (haccepts : Accepts r.decoder p)
    {nodes : List Node} (hliteral : ∀ v ∈ nodes, v.Literal)
    (hlength : nodes.length ≤ r.fields.length) {depth : Nat} {path : Path} {s : σ} :
    r.decoder ⟨.text, some depth, path⟩ (.sequence nodes) = .ok s ↔
      r.decoder ⟨.text, some depth, path⟩ (.object (r.names.zip nodes)) = .ok s := by
  have hvalues : (r.names.zip nodes).map Prod.snd = nodes :=
    List.map_snd_zip (by rwa [names, List.length_map])
  have hreadable : (Node.sequence nodes).Readable depth ↔
      (Node.object (r.names.zip nodes)).Readable depth := by
    cases depth with
    | zero => exact iff_of_false (fun h => Nat.lt_irrefl 0 h.1) (fun h => Nat.lt_irrefl 0 h.1)
    | succ n =>
      rw [Node.readable_sequence, Node.readable_object, ← List.forall_mem_map (f := Prod.snd),
        hvalues]
  have hsame : (Node.sequence nodes).Readable depth →
      (r.decoder ⟨.text, some depth, path⟩ (.sequence nodes) = .ok s ↔
        r.decoder ⟨.text, some depth, path⟩ (.object (r.names.zip nodes)) = .ok s) := by
    intro hread
    have hitems := Node.readableItems_iff.mp hread.2
    refine h.sequence_iff (fun v hv => Node.matches_self v (hliteral v hv) _ (hitems v hv)) hlength
      ⟨by rintro ⟨⟩, ?_⟩
    rintro _ ⟨⟩
    exact hread
  -- what is decoded can be read, on either side, and then the other side can be read as well
  constructor
  · intro hs
    have hliteral' : (Node.sequence nodes).Literal := Node.literalItems_iff.mpr hliteral
    have hread := ((haccepts depth path _ hliteral').mp ⟨s, hs⟩).1
    exact (hsame hread).mp hs
  · intro hs
    have hliteral' : (Node.object (r.names.zip nodes)).Literal := by
      refine Node.literal_object.mpr fun m hm => hliteral m.2 ?_
      rw [← hvalues]
      exact List.mem_map_of_mem hm
    have hread := ((haccepts depth path _ hliteral').mp ⟨s, hs⟩).1
    exact (hsame (hreadable.mpr hread)).mpr hs

theorem members_eq_zip {names : List String} {ms : List (List Char × List Char)}
    (h : List.Forall₂ (fun m k => Json.Source.ofChars m.1 = ⟨.string (some k), true⟩) ms
      (names.take ms.length)) :
    (ms.map fun m => (Json.treeOf m.1, Json.treeOf m.2)) =
      (names.zip (ms.map fun m => Json.treeOf m.2)).map Node.named := by
  induction ms generalizing names with
  | nil => simp
  | cons m ms ih =>
    cases names with
    | nil => cases h
    | cons k names =>
      rw [List.length_cons, List.take_succ_cons, List.forall₂_cons] at h
      rw [List.map_cons, List.map_cons, List.zip_cons_cons, List.map_cons, ih h.2,
        (Json.isValue_of_source h.1).2]
      rfl

theorem Regular.parse_sequence (h : r.Regular) (haccepts : Accepts r.decoder p)
    {ms : List (List Char × List Char)} (hnames : r.Leading ms)
    (hvalues : ∀ m ∈ ms, Json.IsValue m.2) {s : σ} :
    Format.parse .json r.decoder (String.ofList (Json.arrayText (ms.map Prod.snd))) = .ok s ↔
      Format.parse .json r.decoder (String.ofList (Json.objectText ms)) = .ok s := by
  have hlength : ms.length ≤ r.fields.length := by
    have heq := hnames.length_eq
    rw [List.length_take, names, List.length_map] at heq
    omega
  have hstrings : ∀ m ∈ ms, Json.IsName m.1 := by
    intro m hm
    obtain ⟨k, -, hk⟩ := exists_of_forall₂ hnames hm
    obtain ⟨hvalue, htree⟩ := Json.isValue_of_source hk
    exact ⟨hvalue, some k, htree⟩
  have harray : Json.Source.ofText (String.ofList (Json.arrayText (ms.map Prod.snd))) =
      ⟨.sequence (ms.map fun m => Json.treeOf m.2), true⟩ := by
    rw [Json.Source.ofText, String.toList_ofList,
      Json.ofChars_arrayText (List.forall_mem_map.mpr hvalues), List.map_map]
    rfl
  have hobject : Json.Source.ofText (String.ofList (Json.objectText ms)) =
      ⟨.object (r.names.zip (ms.map fun m => Json.treeOf m.2)), true⟩ := by
    rw [Json.Source.ofText, String.toList_ofList, Json.ofChars_objectText hstrings hvalues,
      members_eq_zip hnames]
    rfl
  have hliteral := Json.literal_ofText (String.ofList (Json.arrayText (ms.map Prod.snd)))
  rw [harray] at hliteral
  rw [parse_eq_ok_iff, parse_eq_ok_iff, harray, hobject]
  simp only [and_true]
  exact h.sequence_iff_object haccepts (Node.literalItems_iff.mp hliteral)
    (by rwa [List.length_map])

end Record

/-! ## A small definition -/

namespace Json

theorem ofChars_quoted (k : String) : Source.ofChars (quoted k) = ⟨.string (some k), true⟩ := by
  refine ofChars_of_reads (List.forall_mem_nil _) ?_
  have hread := readValue_quoted (2 * (quoted k).length) k []
  rwa [List.append_nil] at hread

theorem isName_quoted (k : String) : IsName (quoted k) := by
  obtain ⟨hvalue, htree⟩ := isValue_of_source (ofChars_quoted k)
  exact ⟨hvalue, some k, htree⟩

end Json

open Json

/-- The members of a small definition. -/
def smallMembers : List (List Char × List Char) :=
  [(quoted "model", quoted "M"), (quoted "views", objectText [])]

theorem names_smallMembers : ∀ m ∈ smallMembers, IsName m.1 := by
  simp only [smallMembers, List.forall_mem_cons]
  exact ⟨isName_quoted _, isName_quoted _, List.forall_mem_nil _⟩

theorem values_smallMembers : ∀ m ∈ smallMembers, IsValue m.2 := by
  have hempty := isValue_of_source (@ofChars_objectText [] (by simp) (by simp))
  simp only [smallMembers, List.forall_mem_cons]
  exact ⟨(isName_quoted _).1, hempty.1, List.forall_mem_nil _⟩

theorem source_smallMembers : Source.ofText (String.ofList (objectText smallMembers)) =
    ⟨.object [("model", .string (some "M")), ("views", .object [])], true⟩ := by
  have hempty := isValue_of_source (@ofChars_objectText [] (by simp) (by simp))
  rw [Source.ofText, String.toList_ofList,
    ofChars_objectText names_smallMembers values_smallMembers]
  simp only [smallMembers, List.map_cons, List.map_nil, hempty.2]
  simp only [treeOf, ofChars_quoted]
  rfl

/-! ## All records -/

/-- What decoding a record does not depend on. -/
structure Record.Independent {σ : Type} (r : Record σ) : Prop where
  /-- the order of members -/
  order : ∀ text text', Json.DistinctNames text → Json.Rearrangement text text' → ∀ s,
    Format.parse .json r.decoder text = .ok s ↔ Format.parse .json r.decoder text' = .ok s
  /-- whether the text is decoded at once or read as a value before -/
  path : ∀ text, Json.DistinctNames text → ∀ s,
    Format.parse .json r.decoder text = .ok s ↔
      ∃ v, Format.parse .json Decoder.free text = .ok v ∧
        r.decoder (.root .value) (.ofJson v) = .ok s
  /-- whether the values of leading fields are given in order or by name -/
  form : ∀ ms, r.Leading ms → (∀ m ∈ ms, Json.IsValue m.2) → ∀ s,
    Format.parse .json r.decoder (String.ofList (Json.arrayText (ms.map Prod.snd))) = .ok s ↔
      Format.parse .json r.decoder (String.ofList (Json.objectText ms)) = .ok s

theorem Record.Regular.independent {σ : Type} {r : Record σ} {p : Shape} (h : r.Regular)
    (haccepts : Accepts r.decoder p) : r.Independent where
  order _ _ hdistinct hsame _ := h.decoder_steady.parse_rearranged haccepts hdistinct hsame
  path _ hdistinct _ := h.decoder_steady.parse_iff haccepts hdistinct
  form _ hnames hvalues _ := h.parse_sequence haccepts hnames hvalues

open Record

theorem ViewOptions.regular : ViewOptions.record.Regular where
  strict := rfl
  nodup := by decide
  steady := by
    simp only [ViewOptions.record, List.forall_mem_cons]
    exact ⟨Key.steady.optional.map _, Steady.text.optional.map _, (Steady.free.map _).map _,
      (Steady.choice Language.choices).map _, by simp⟩
  apart := by
    simp only [ViewOptions.record, List.pairwise_cons, List.forall_mem_cons, List.not_mem_nil,
      IsEmpty.forall_iff, implies_true, and_true, List.Pairwise.nil]
    refine ⟨⟨?_, ?_, ?_⟩, ⟨?_, ?_⟩, ?_⟩ <;> exact apart_of_maps rfl rfl fun _ _ _ => rfl
  required := by simp [ViewOptions.record]

theorem QueryOptions.regular : QueryOptions.record.Regular where
  strict := rfl
  nodup := by decide
  steady := by
    simp only [QueryOptions.record, List.forall_mem_cons]
    exact ⟨Steady.flag.optional.map _, Steady.free.optional.map _, Steady.free.list.optional.map _,
      Steady.free.optional.map _, Steady.text.optional.map _, Steady.free.optional.map _,
      Steady.text.optional.map _, Steady.count.optional.map _, Steady.count.optional.map _,
      Steady.flag.optional.map _, Steady.flag.optional.map _, Steady.count.optional.map _,
      Steady.flag.optional.map _, Steady.flag.optional.map _,
      (Steady.choice Stale.choices).optional.map _, by simp⟩
  apart := by
    -- any two of the fifteen fields set different parts
    simp only [QueryOptions.record, List.pairwise_cons, List.forall_mem_cons, List.not_mem_nil,
      IsEmpty.forall_iff, implies_true, and_true, List.Pairwise.nil]
    repeat' apply And.intro
    all_goals exact apart_of_maps rfl rfl fun _ _ _ => rfl
  required := by simp [QueryOptions.record]

theorem ViewDefinition.regular : ViewDefinition.record.Regular where
  strict := rfl
  nodup := by decide
  steady := by
    simp only [ViewDefinition.record, List.forall_mem_cons]
    exact ⟨ViewOptions.regular.decoder_steady.map _, QueryOptions.regular.decoder_steady.map _,
      by simp⟩
  apart := by
    simp only [ViewDefinition.record, List.pairwise_cons, List.forall_mem_cons, List.not_mem_nil,
      IsEmpty.forall_iff, implies_true, and_true, List.Pairwise.nil]
    exact apart_of_maps rfl rfl fun _ _ _ => rfl
  required := by simp [ViewDefinition.record]

theorem DesignDefinition.regular : DesignDefinition.record.Regular where
  strict := rfl
  nodup := by decide
  steady := by
    simp only [DesignDefinition.record, List.forall_mem_cons]
    exact ⟨Steady.text.map _, ViewDefinition.regular.decoder_steady.names.map _, by simp⟩
  apart := by
    simp only [DesignDefinition.record, List.pairwise_cons, List.forall_mem_cons, List.not_mem_nil,
      IsEmpty.forall_iff, implies_true, and_true, List.Pairwise.nil]
    exact apart_of_maps rfl rfl fun _ _ _ => rfl
  required := by simp [DesignDefinition.record, names, Field.always]

/-- **Decoding.** A text in which no name is repeated decodes like each of its rearrangements and
like its value, and the values of leading fields decode like an object that gives these fields the
same values. -/
theorem decoding_independent :
    DesignDefinition.record.Independent ∧ ViewDefinition.record.Independent ∧
      ViewOptions.record.Independent ∧ QueryOptions.record.Independent :=
  ⟨DesignDefinition.regular.independent DesignDefinition.accepts,
    ViewDefinition.regular.independent ViewDefinition.accepts,
    ViewOptions.regular.independent ViewOptions.accepts,
    QueryOptions.regular.independent QueryOptions.accepts⟩

/-- a small definition, in the other order, read as a value first, and as an array -/
theorem decoding_independent_small :
    ∃ d, Format.parse .json DesignDefinition.record.decoder
        (String.ofList (objectText smallMembers)) = .ok d ∧
      Format.parse .json DesignDefinition.record.decoder
        (String.ofList (objectText smallMembers.reverse)) = .ok d ∧
      (∃ v, Format.parse .json Decoder.free (String.ofList (objectText smallMembers)) = .ok v ∧
        DesignDefinition.record.decoder (.root .value) (.ofJson v) = .ok d) ∧
      Format.parse .json DesignDefinition.record.decoder
        (String.ofList (arrayText (smallMembers.map Prod.snd))) = .ok d := by
  have hdistinct : DistinctNames (String.ofList (objectText smallMembers)) := by
    constructor
    rw [source_smallMembers]
    simp [Node.object, Node.named, Node.Distinct, Node.DistinctMembers, Node.namesOf, Node.name?]
  have hsame : Rearrangement (String.ofList (objectText smallMembers))
      (String.ofList (objectText smallMembers.reverse)) := by
    unfold Rearrangement
    rw [String.toList_ofList, String.toList_ofList]
    exact .single (.members names_smallMembers values_smallMembers (List.reverse_perm _).symm)
  have hleading : DesignDefinition.record.Leading smallMembers :=
    .cons (ofChars_quoted _) (.cons (ofChars_quoted _) .nil)
  have hparse : ∃ d, Format.parse .json DesignDefinition.record.decoder
      (String.ofList (objectText smallMembers)) = .ok d := by
    rw [parse_ok_iff, source_smallMembers]
    exact ⟨⟨_, rfl⟩, rfl⟩
  obtain ⟨d, hd⟩ := hparse
  obtain ⟨horder, hpath, hform⟩ := decoding_independent.1
  refine ⟨d, hd, (horder _ _ hdistinct hsame d).mp hd, (hpath _ hdistinct d).mp hd, ?_⟩
  exact (hform _ hleading values_smallMembers d).mpr hd

end ViewDesign
