import ViewDesign.Proofs.Catalog
import ViewDesign.Proofs.Command.Running

/-!
# Listing map functions stops at the first view that has none

A listing takes the views of all definitions in one row.  It prints the header of a view before it
generates the map function, so that of the view at which it stops the header is there and nothing
else.

* `ViewSpec.header`, `ViewSpec.block`   what is printed of a view;
* `Command.listing`                     the outcome of a listing over files that do not change;
* `Command.Stops`                       blocks up to a view that fails, or of all views;
* `Command.viewsIn_override`            another language asked for, or written in the definitions;
* `Command.listing_stops`               what a listing prints and how it fails.
-/

namespace ViewDesign

/-! ## What is printed of a view -/

namespace ViewSpec

/-- The header of a view: its model, its name and its language. -/
def header (s : ViewSpec) : String :=
  "// " ++ s.ownerClass ++ "/" ++ s.name ++ " (" ++ s.language.name ++ ")"

/-- The block of a view: the header, the map function and a blank line. -/
def block (s : ViewSpec) : Except Failure String :=
  s.mapFunction.map fun source => s.header ++ "\n" ++ source ++ "\n\n"

end ViewSpec

namespace Outcome

theorem texts_andThen {first : Outcome} (h : first.trouble = none) (second : Outcome) :
    (first.andThen second).texts = first.texts ++ second.texts := by
  simp only [andThen, h, texts, textsIn, List.filterMap_append]

theorem trouble_andThen {first : Outcome} (h : first.trouble = none) (second : Outcome) :
    (first.andThen second).trouble = second.trouble := by
  simp only [andThen, h]

theorem andThen_of_trouble {first : Outcome} {t : Trouble} (h : first.trouble = some t)
    (second : Outcome) : first.andThen second = first := by
  simp only [andThen, h]

end Outcome

theorem printed_append (as bs : List String) : printed (as ++ bs) = printed as ++ printed bs := by
  rw [printed, List.map_append, String.join_append]
  rfl

namespace Command

/-- What is shown of a view in its language. -/
def showView (s : ViewSpec) : Outcome :=
  match s.mapFunction with
  | .error e => (Outcome.fail e).after [.text s.header]
  | .ok source => { lines := [.text s.header, .note (.generated s), .text (source ++ "\n")] }

/-- The views of definitions in the language asked for. -/
def viewsIn (language : Option Language) (ds : List DesignDefinition) : List ViewSpec :=
  (ds.flatMap DesignDefinition.specs).map (inLanguage language)

theorem ownerClass_inLanguage (language : Option Language) (s : ViewSpec) :
    (inLanguage language s).ownerClass = s.ownerClass := by
  cases language <;> rfl

theorem names_inLanguage (language : Option Language) (specs : List ViewSpec) :
    (specs.map (inLanguage language)).map ViewSpec.name = specs.map ViewSpec.name := by
  rw [List.map_map]
  refine List.map_congr_left fun s _ => ?_
  cases language <;> rfl

/-- a view is shown by itself, since it knows its model -/
theorem showMap_eq_showView {language : Option Language} {d : DesignDefinition} {s : ViewSpec}
    (h : s ∈ d.specs) : showMap language d s = showView (inLanguage language s) := by
  have hmodel : (inLanguage language s).ownerClass = d.model := by
    rw [ownerClass_inLanguage]
    obtain ⟨e, -, rfl⟩ := List.mem_map.mp h
    rfl
  unfold showMap showView ViewSpec.header
  dsimp only
  cases (inLanguage language s).mapFunction with
  | error e => exact hmodel ▸ rfl
  | ok source => exact hmodel ▸ rfl

theorem shown_eq (language : Option Language) (ds : List DesignDefinition) :
    (ds.flatMap fun d => d.specs.map (showMap language d)) =
      (viewsIn language ds).map showView := by
  have heach : ∀ d : DesignDefinition, d.specs.map (showMap language d) =
      d.specs.map fun s => showView (inLanguage language s) :=
    fun d => List.map_congr_left fun s hs => showMap_eq_showView hs
  simp only [heach, viewsIn, List.map_map, List.map_flatMap]
  rfl

/-! ## Up to the first view that fails -/

/-- Either all views have a block, and the blocks are printed; or some view fails, the blocks of
the views before it are printed and then its header, and the failure is its own. -/
def Stops (views : List ViewSpec) (text : String) (trouble : Option Trouble) : Prop :=
  (∃ blocks, List.Forall₂ (fun s block => s.block = .ok block) views blocks ∧
    text = String.join blocks ∧ trouble = none) ∨
  ∃ before s after blocks e, views = before ++ s :: after ∧
    List.Forall₂ (fun s block => s.block = .ok block) before blocks ∧ s.mapFunction = .error e ∧
    text = String.join blocks ++ (s.header ++ "\n") ∧ trouble = some ⟨none, e⟩

/-- the first view fails, or its block comes before all others -/
theorem stops_cons_iff {s : ViewSpec} {views : List ViewSpec} {text : String}
    {trouble : Option Trouble} :
    Stops (s :: views) text trouble ↔
      (∃ e, s.mapFunction = .error e ∧ text = s.header ++ "\n" ∧ trouble = some ⟨none, e⟩) ∨
      ∃ block rest, s.block = .ok block ∧ text = block ++ rest ∧ Stops views rest trouble := by
  constructor
  · rintro (⟨_, hblocks, rfl, rfl⟩ | ⟨before, s', after, blocks, e, hviews, hblocks, he, rfl, rfl⟩)
    · obtain ⟨block, blocks, hs, hrest, rfl⟩ := List.forall₂_cons_left_iff.mp hblocks
      exact .inr ⟨block, _, hs, String.join_cons, .inl ⟨blocks, hrest, rfl, rfl⟩⟩
    · cases hblocks with
      | nil =>
        obtain ⟨rfl, rfl⟩ := List.cons.inj hviews
        exact .inl ⟨e, he, String.empty_append, rfl⟩
      | @cons s' block before blocks hs hblocks =>
        obtain ⟨rfl, rfl⟩ := List.cons.inj hviews
        have hrest : Stops (before ++ s' :: after) (String.join blocks ++ (s'.header ++ "\n"))
            (some ⟨none, e⟩) := .inr ⟨before, s', after, blocks, e, rfl, hblocks, he, rfl, rfl⟩
        refine .inr ⟨block, _, hs, ?_, hrest⟩
        rw [String.join_cons, String.append_assoc]
  · rintro (⟨e, he, rfl, rfl⟩ | ⟨block, _, hs, rfl, ⟨blocks, hblocks, rfl, rfl⟩ |
      ⟨before, s', after, blocks, e, rfl, hblocks, he, rfl, rfl⟩⟩)
    · exact .inr ⟨[], s, views, [], e, rfl, .nil, he, String.empty_append.symm, rfl⟩
    · exact .inl ⟨block :: blocks, .cons hs hblocks, String.join_cons.symm, rfl⟩
    · refine .inr ⟨s :: before, s', after, block :: blocks, e, rfl, .cons hs hblocks, he, ?_, rfl⟩
      rw [String.join_cons, String.append_assoc]

theorem stops_sequence (views : List ViewSpec) :
    Stops views (printed (Outcome.sequence (views.map showView)).texts)
      (Outcome.sequence (views.map showView)).trouble := by
  induction views with
  | nil => exact .inl ⟨[], .nil, rfl, rfl⟩
  | cons s views ih =>
    have hsequence : Outcome.sequence ((s :: views).map showView) =
        (showView s).andThen (Outcome.sequence (views.map showView)) := rfl
    rw [hsequence]
    cases hsource : s.mapFunction with
    | error e =>
      have hshown : showView s = (Outcome.fail e).after [.text s.header] := by
        rw [showView, hsource]
      have htexts : printed (showView s).texts = s.header ++ "\n" := by
        rw [hshown]
        exact String.join_cons.trans String.append_empty
      rw [Outcome.andThen_of_trouble (by rw [hshown]; rfl), htexts, hshown]
      exact stops_cons_iff.mpr (.inl ⟨e, hsource, rfl, rfl⟩)
    | ok source =>
      have hshown : showView s =
          { lines := [.text s.header, .note (.generated s), .text (source ++ "\n")] } := by
        rw [showView, hsource]
      have hblock : s.block = .ok (printed (showView s).texts) := by
        rw [ViewSpec.block, hsource, hshown]
        simp [Except.map, printed, Outcome.texts, Outcome.textsIn, String.join_cons,
          String.append_assoc]
      rw [Outcome.texts_andThen (by rw [hshown]), Outcome.trouble_andThen (by rw [hshown]),
        printed_append]
      exact stops_cons_iff.mpr (.inr ⟨_, _, hblock, rfl, ih⟩)

/-! ## Listings -/

/-- The outcome of a listing over files that do not change. -/
def listing (files : Files Id) (language : Option Language) (patterns : List String) : Outcome :=
  Id.run ((Command.map language patterns).execute files)

variable {files : Files Id} {language : Option Language} {patterns : List String}

theorem textsIn_loadedNotes (loaded : List (String × DesignDefinition)) :
    Outcome.textsIn (loadedNotes loaded) = [] :=
  Outcome.textsIn_notes (fun e : String × DesignDefinition => .loaded e.1 e.2) loaded

/-- nothing is listed unless all definitions are there -/
theorem listing_of_trouble {t : Trouble}
    (h : definitionsOf files (patternsOrDefault patterns) = .error t) :
    verdict (listing files language patterns) = ([], some t) := by
  unfold definitionsOf at h
  simp only [listing, execute, forViews, Id.run_bind, h]
  exact Prod.ext (textsIn_loadedNotes _) rfl

theorem listing_of_definitions {ds : List DesignDefinition}
    (h : definitionsOf files (patternsOrDefault patterns) = .ok ds) :
    verdict (listing files language patterns) =
      verdict (Outcome.sequence ((viewsIn language ds).map showView)) := by
  unfold definitionsOf at h
  simp only [listing, execute, forViews, Id.run_bind, h, shown_eq]
  exact verdict_after (textsIn_loadedNotes _) _

/-! ## Another language -/

end Command

/-- The definition of a view in another language. -/
def ViewDefinition.withLanguage (l : Language) (v : ViewDefinition) : ViewDefinition :=
  { v with view := { v.view with language := l } }

/-- A definition with all its views in another language. -/
def DesignDefinition.withLanguage (l : Language) (d : DesignDefinition) : DesignDefinition where
  model := d.model
  views := {
    entries := d.views.entries.map fun e => (e.1, e.2.withLanguage l)
    ascending := by
      rw [Entries.Ascending, List.pairwise_map]
      exact d.views.ascending }

theorem DesignDefinition.specs_withLanguage (l : Language) (d : DesignDefinition) :
    (d.withLanguage l).specs = d.specs.map (·.withLanguage l) := by
  simp only [specs, withLanguage, List.map_map]
  rfl

namespace Command

/-- a language asked for is one that the definitions have -/
theorem viewsIn_override (l : Language) (ds : List DesignDefinition) :
    viewsIn (some l) ds = viewsIn none (ds.map (·.withLanguage l)) := by
  simp only [viewsIn, List.flatMap_map, DesignDefinition.specs_withLanguage, ← List.map_flatMap,
    List.map_map]
  rfl

/-- **A listing stops at the first view without a map function.** -/
theorem listing_stops (files : Files Id) (patterns : List String) :
    -- it prints nothing unless all definitions are loaded
    (∀ language t, definitionsOf files (patternsOrDefault patterns) = .error t →
      (listing files language patterns).texts = [] ∧
        (listing files language patterns).trouble = some t) ∧
    -- it prints the blocks of all views, or those before a view that fails and its header
    (∀ language ds, definitionsOf files (patternsOrDefault patterns) = .ok ds →
      Stops (viewsIn language ds) (printed (listing files language patterns).texts)
        (listing files language patterns).trouble) ∧
    -- the views come in the order of the definitions, and those of each by their names
    (∀ language ds, viewsIn language ds = ds.flatMap (·.specs.map (inLanguage language)) ∧
      ∀ d ∈ ds, ((d.specs.map (inLanguage language)).map ViewSpec.name).Pairwise (· < ·)) ∧
    -- a language asked for is as good as one written in the definitions
    (∀ (l : Language) (ds : List DesignDefinition),
      Outcome.sequence (ds.flatMap fun d => d.specs.map (showMap (some l) d)) =
        Outcome.sequence ((ds.map (·.withLanguage l)).flatMap fun d =>
          d.specs.map (showMap none d))) ∧
    ∀ l ds files' patterns', definitionsOf files (patternsOrDefault patterns) = .ok ds →
      definitionsOf files' (patternsOrDefault patterns') = .ok (ds.map (·.withLanguage l)) →
      (listing files (some l) patterns).texts = (listing files' none patterns').texts ∧
        (listing files (some l) patterns).trouble = (listing files' none patterns').trouble := by
  refine ⟨fun language t h => ?_, fun language ds h => ?_, fun language ds => ⟨?_, fun d _ => ?_⟩,
    fun l ds => ?_, fun l ds files' patterns' h h' => ?_⟩
  · exact Prod.mk.inj (listing_of_trouble h)
  · obtain ⟨htexts, htrouble⟩ := Prod.mk.inj (@listing_of_definitions _ language _ _ h)
    rw [htexts, htrouble]
    exact stops_sequence _
  · rw [viewsIn, List.map_flatMap]
  · rw [names_inLanguage]
    exact d.ascending_specs
  · rw [shown_eq, shown_eq, viewsIn_override]
  · have hsame : verdict (listing files (some l) patterns) =
        verdict (listing files' none patterns') := by
      rw [listing_of_definitions h, listing_of_definitions h', viewsIn_override]
    exact Prod.mk.inj hsame

/-! ## A view that only one language has -/

/-- Three views, of which the second has conditions. -/
def narrowedDefinition : DesignDefinition where
  model := "User"
  views := ((NameMap.empty.insert "all" {}).insert "grown" {
    view := { conditions := some "doc.age > 17" } }).insert "names" {
      view := { key := some (.single "name") } }

/-- The definition in one file, and in all others the same in Erlang. -/
def narrowedFiles : Files Id where
  kind? _ := some .file
  list _ := .ok []
  read path :=
    if path = "user.json" then .ok narrowedDefinition.encode.compact
    else .ok (narrowedDefinition.withLanguage .erlang).encode.compact

theorem storable_narrowedDefinition (l : Language) :
    narrowedDefinition.Storable ∧ (narrowedDefinition.withLanguage l).Storable := by
  have hquery : ({} : QueryOptions).Storable :=
    ⟨by rintro _ ⟨⟩, by rintro _ ⟨⟩, by rintro _ ⟨⟩, by rintro _ ⟨⟩⟩
  refine ⟨?_, ?_⟩
  · show ∀ e ∈ [_, _, _], _
    simp only [List.forall_mem_cons]
    exact ⟨⟨trivial, hquery⟩, ⟨trivial, hquery⟩, ⟨trivial, hquery⟩, by simp⟩
  · show ∀ e ∈ [_, _, _], _
    simp only [List.forall_mem_cons]
    exact ⟨⟨trivial, hquery⟩, ⟨trivial, hquery⟩, ⟨trivial, hquery⟩, by simp⟩

theorem definitionsOf_narrowedFiles :
    definitionsOf narrowedFiles ["user.json"] = .ok [narrowedDefinition] ∧
      definitionsOf narrowedFiles ["erlang.json"] =
        .ok [narrowedDefinition.withLanguage .erlang] := by
  obtain ⟨hstorable, hstorable'⟩ := storable_narrowedDefinition .erlang
  have hread : Id.run (narrowedFiles.read "user.json") =
      .ok narrowedDefinition.encode.compact := by
    simp only [narrowedFiles, if_true]
    rfl
  have hread' : Id.run (narrowedFiles.read "erlang.json") =
      .ok (narrowedDefinition.withLanguage .erlang).encode.compact := by
    simp only [narrowedFiles, String.reduceEq, if_false]
    rfl
  have hload := load_ok rfl hread ((DesignDefinition.readsBack hstorable).parse (by decide)).1
  have hload' := load_ok rfl hread' ((DesignDefinition.readsBack hstorable').parse (by decide)).1
  exact ⟨definitionsOf_ok_iff.mpr ⟨[["user.json"]], .cons rfl .nil, .cons hload .nil⟩,
    definitionsOf_ok_iff.mpr ⟨[["erlang.json"]], .cons rfl .nil, .cons hload' .nil⟩⟩

/-- The three views in a language. -/
def narrowedViews (l : Language) : List ViewSpec := [
  { ownerClass := "User", name := "all", view := { language := l } },
  { ownerClass := "User", name := "grown",
    view := { conditions := some "doc.age > 17", language := l } },
  { ownerClass := "User", name := "names",
    view := { key := some (.single "name"), language := l } }]

/-- asked for in Erlang, the listing stops at the second of the three views, and so does that of the
definition in Erlang; in their own language all are listed -/
theorem listing_stops_narrowed :
    (listing narrowedFiles (some .erlang) ["user.json"]).trouble =
        some ⟨none, .unsupportedFeature .erlang .conditions⟩ ∧
      (∃ block, printed (listing narrowedFiles (some .erlang) ["user.json"]).texts =
        block ++ "// User/grown (erlang)\n") ∧
      (listing narrowedFiles none ["erlang.json"]).trouble =
        some ⟨none, .unsupportedFeature .erlang .conditions⟩ ∧
      (listing narrowedFiles none ["user.json"]).trouble = none := by
  obtain ⟨hdefs, hdefs'⟩ := definitionsOf_narrowedFiles
  obtain ⟨-, hstops, -, -, hoverride⟩ := listing_stops narrowedFiles ["user.json"]
  have herlang : Stops (narrowedViews .erlang) _ _ := hstops (some .erlang) _ hdefs
  have hown : Stops (narrowedViews .javaScript) _ _ := hstops none _ hdefs
  have htrouble : (listing narrowedFiles (some .erlang) ["user.json"]).trouble =
      some ⟨none, .unsupportedFeature .erlang .conditions⟩ ∧
        ∃ block, printed (listing narrowedFiles (some .erlang) ["user.json"]).texts =
          block ++ "// User/grown (erlang)\n" := by
    obtain ⟨e, he, -⟩ | ⟨block, rest, -, htext, hrest⟩ := stops_cons_iff.mp herlang
    · cases he
    · obtain ⟨e, he, rfl, htrouble⟩ | ⟨block', _, hblock, -⟩ := stops_cons_iff.mp hrest
      · cases he
        exact ⟨htrouble, block, htext⟩
      · cases hblock
  refine ⟨htrouble.1, htrouble.2, ?_, ?_⟩
  · rw [← (hoverride .erlang _ narrowedFiles ["erlang.json"] hdefs hdefs').2]
    exact htrouble.1
  · obtain ⟨_, -, -, htrouble⟩ | ⟨before, s, after, blocks, e, hviews, -, he, -⟩ := hown
    · exact htrouble
    · have hmem : s ∈ narrowedViews .javaScript := by
        rw [hviews]
        exact List.mem_append_right _ (List.mem_cons_self ..)
      have hall : ∀ s ∈ narrowedViews .javaScript, ∃ source, s.mapFunction = .ok source := by
        simp only [narrowedViews, List.forall_mem_cons]
        exact ⟨⟨_, rfl⟩, ⟨_, rfl⟩, ⟨_, rfl⟩, by simp⟩
      obtain ⟨source, hsource⟩ := hall s hmem
      rw [hsource] at he
      cases he

end Command

end ViewDesign
