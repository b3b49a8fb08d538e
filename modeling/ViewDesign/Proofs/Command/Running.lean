import ViewDesign.Command.Outcome
import ViewDesign.Proofs.Document.Storing
import ViewDesign.Proofs.Evaluation.Rows
import ViewDesign.Proofs.Evaluation.Rows
import ViewDesign.Proofs.Evaluation.Rows
import ViewDesign.Proofs.Specifications

/-!
# Running all views and running one of them

A run without a name evaluates the views that can be evaluated, one after the other, and prints one
object with an entry for each; a run of a named view prints an object with one entry.  What either
prints and how it fails is settled by the results of the single views.

* `Outcome.texts`                  what is printed beside the log;
* `ViewSpec.results`               the results of one view;
* `Command.resultsOf`              those of several views, up to the first failure;
* `Command.report`                 what is printed for them;
* `Command.runDefinition_report`   what a run prints and how it fails;
* `Command.runs_agree`             runs of all views against runs by name.
-/

namespace ViewDesign

namespace Outcome

/-- The texts among some lines. -/
def textsIn (lines : List Line) : List String :=
  lines.filterMap fun
    | .text s => some s
    | .note _ => none

/-- The texts that are printed, without the notes of the log. -/
def texts (o : Outcome) : List String := textsIn o.lines

theorem texts_after {lines : List Line} (h : textsIn lines = []) (o : Outcome) :
    (o.after lines).texts = o.texts := by
  simp only [texts, after, textsIn, List.filterMap_append] at h ⊢
  rw [h, List.nil_append]

theorem textsIn_notes {α : Type} (f : α → Note) (as : List α) :
    textsIn (as.map fun a => .note (f a)) = [] := by
  simp [textsIn]

end Outcome

/-! ## Results of views -/

/-- The results of a view over documents, as they are printed. -/
def ViewSpec.results (s : ViewSpec) (docs : List Json) : Except Failure Json :=
  (s.evaluate docs).map fun rows => .arr ((s.processResults rows).map ViewResult.encode)

namespace Command

/-- The results of views by their names, or the failure of the first view that fails. -/
def resultsOf (docs : List Json) : List ViewSpec → Except Failure (List (String × Json))
  | [] => .ok []
  | s :: rest => do
    let v ← s.results docs
    return (s.name, v) :: (← resultsOf docs rest)

/-- What is printed for some results, and the trouble there is. -/
def report : Except Failure (List (String × Json)) → List String × Option Trouble
  | .ok entries => ([(Json.object entries).pretty], none)
  | .error e => ([], some ⟨none, e⟩)

variable {docs : List Json} {specs : List ViewSpec} {entries : List (String × Json)}

theorem resultsOf_eq_mapM :
    resultsOf docs specs = specs.mapM fun s => (s.results docs).map fun v => (s.name, v) := by
  induction specs with
  | nil => rfl
  | cons s rest ih =>
    rw [List.mapM_cons, ← ih, resultsOf]
    cases s.results docs <;> rfl

theorem resultsOf_single (s : ViewSpec) :
    resultsOf docs [s] = (s.results docs).map fun v => [(s.name, v)] := by
  simp only [resultsOf]
  cases s.results docs <;> rfl

/-- all views have results exactly if each of them has -/
theorem resultsOf_ok_iff :
    (∃ entries, resultsOf docs specs = .ok entries) ↔
      ∀ s ∈ specs, ∃ v, s.results docs = .ok v := by
  simp only [resultsOf_eq_mapM, exists_mapM_ok_iff, exists_ok_map]

/-- each entry is that of a view, in the order of the views -/
theorem forall₂_resultsOf (h : resultsOf docs specs = .ok entries) :
    List.Forall₂ (fun s e => e.1 = s.name ∧ s.results docs = .ok e.2) specs entries := by
  rw [resultsOf_eq_mapM, mapM_ok_iff] at h
  refine h.imp fun s e hs => ?_
  obtain ⟨v, hv, rfl⟩ := map_ok_iff.mp hs
  exact ⟨rfl, hv⟩

theorem mem_resultsOf {e : String × Json} (h : resultsOf docs specs = .ok entries)
    (he : e ∈ entries) : ∃ s ∈ specs, e.1 = s.name ∧ s.results docs = .ok e.2 :=
  exists_of_forall₂ (forall₂_resultsOf h).flip he

theorem names_resultsOf (h : resultsOf docs specs = .ok entries) :
    entries.map Prod.fst = specs.map ViewSpec.name :=
  (map_eq_of_forall₂ (forall₂_resultsOf h) fun _ _ he => he.1.symm).symm

/-! ## Runs -/

/-- What an outcome prints, and its trouble. -/
def verdict (o : Outcome) : List String × Option Trouble := (o.texts, o.trouble)

theorem verdict_after {lines : List Line} (h : Outcome.textsIn lines = []) (o : Outcome) :
    verdict (o.after lines) = verdict o := by
  rw [verdict, Outcome.texts_after h]
  rfl

theorem textsIn_evaluationNotes (s : ViewSpec) : Outcome.textsIn (evaluationNotes s) = [] := by
  unfold evaluationNotes
  split <;> rfl

theorem verdict_runViews (docs : List Json) (done : List (String × Json)) (specs : List ViewSpec) :
    verdict (runViews docs done specs) =
      report ((resultsOf docs specs).map fun entries => done.reverse ++ entries) := by
  induction specs generalizing done with
  | nil => simp [runViews, resultsOf, report, verdict, Outcome.texts, Outcome.textsIn, Except.map]
  | cons s rest ih =>
    simp only [runViews, resultsOf, ViewSpec.results]
    cases s.evaluate docs with
    | error e => exact verdict_after (textsIn_evaluationNotes s) (Outcome.fail e)
    | ok rows =>
      have hnotes : Outcome.textsIn (evaluationNotes s ++ [
          .note (.emitted s.name rows.rows.length docs.length),
          .note (.produced s.name (s.processResults rows).length)]) = [] := by
        have h := textsIn_evaluationNotes s
        unfold Outcome.textsIn at h ⊢
        rw [List.filterMap_append, h]
        rfl
      rw [verdict_after hnotes, ih]
      cases resultsOf docs rest with
      | error e => rfl
      | ok entries => simp [Except.map, bind, Except.bind, pure, Except.pure]

/-- what a run of a definition prints, and how it fails -/
theorem runDefinition_report (d : DesignDefinition) (docs : List Json) (view : Option String) :
    verdict (runDefinition d docs view) = report (d.evaluable view >>= resultsOf docs) := by
  unfold runDefinition
  cases d.evaluable view with
  | error e => rfl
  | ok specs =>
    have hruns := verdict_runViews docs [] specs
    dsimp only
    rw [verdict_after (Outcome.textsIn_notes _ _), hruns]
    show _ = report (resultsOf docs specs)
    cases resultsOf docs specs <;> rfl

/-- The outcome of a run over files that do not change. -/
def outcomeOf (files : Files Id) (definition docs : String) (view : Option String) : Outcome :=
  Id.run ((Command.run definition docs view).execute files)

variable {files : Files Id} {definition docsPath : String} {d : DesignDefinition}

theorem outcomeOf_report (hd : Id.run (loadFile files DesignDefinition.decoder definition) = .ok d)
    (hdocs : Id.run (loadFile files (Decoder.list Decoder.free) docsPath) = .ok docs)
    (view : Option String) :
    verdict (outcomeOf files definition docsPath view) =
      report (d.evaluable view >>= resultsOf docs) := by
  have hrun : outcomeOf files definition docsPath view =
      (runDefinition d docs view).after (loadedNotes [(definition, d)]) := by
    unfold outcomeOf execute
    simp only [Id.run_bind, hd, hdocs]
    rfl
  rw [hrun, verdict_after rfl]
  exact runDefinition_report d docs view

/-- The views that are evaluated when none is named. -/
def javaScriptViews (d : DesignDefinition) : List ViewSpec :=
  d.specs.filter (·.language = .javaScript)

theorem evaluable_none (d : DesignDefinition) : d.evaluable none = .ok (javaScriptViews d) := rfl

theorem evaluable_name {s : ViewSpec} (h : s ∈ d.specs) : d.evaluable (some s.name) = .ok [s] := by
  rw [DesignDefinition.evaluable, DesignDefinition.mem_specs.mp h]
  rfl

theorem report_trouble {r : Except Failure (List (String × Json))} :
    (report r).2 = none ↔ ∃ entries, r = .ok entries := by
  cases r <;> simp [report]

theorem mem_javaScriptViews {s : ViewSpec} :
    s ∈ javaScriptViews d ↔ s ∈ d.specs ∧ s.language = .javaScript := by
  simp [javaScriptViews]

/-- results of views whose names ascend are an object as they are -/
theorem object_resultsOf (h : resultsOf docs (javaScriptViews d) = .ok entries) :
    Json.object entries = .obj entries := by
  have hnames : (entries.map Prod.fst).Pairwise (· < ·) := by
    rw [names_resultsOf h]
    exact d.ascending_specs.sublist (List.filter_sublist.map _)
  rw [Json.object, Entries.ofList_of_ascending (List.pairwise_map.mp hnames)]

theorem results_erlang {s : ViewSpec} (h : s.language = .erlang) :
    s.results docs = .error (.cannotEvaluate .erlang) := by
  simp only [ViewSpec.results, ViewSpec.evaluate, ViewSpec.emissions, h]
  rfl

section
variable (hd : Id.run (loadFile files DesignDefinition.decoder definition) = .ok d)
  (hdocs : Id.run (loadFile files (Decoder.list Decoder.free) docsPath) = .ok docs)
include hd hdocs

/-- what a run of all views prints, and how it fails -/
theorem run_all : verdict (outcomeOf files definition docsPath none) =
    report (resultsOf docs (javaScriptViews d)) := by
  rw [outcomeOf_report hd hdocs, evaluable_none]
  rfl

theorem run_name {s : ViewSpec} (h : s ∈ d.specs) :
    verdict (outcomeOf files definition docsPath (some s.name)) =
      report ((s.results docs).map fun v => [(s.name, v)]) := by
  rw [outcomeOf_report hd hdocs, evaluable_name h, ← resultsOf_single]
  rfl

theorem run_unknown {name : String} (h : ∀ s ∈ d.specs, s.name ≠ name) :
    verdict (outcomeOf files definition docsPath (some name)) =
      ([], some ⟨none, .noSuchView d.model name⟩) := by
  rw [outcomeOf_report hd hdocs, DesignDefinition.evaluable, DesignDefinition.spec_unknown h]
  rfl

theorem run_name_ok {s : ViewSpec} (h : s ∈ d.specs) :
    (outcomeOf files definition docsPath (some s.name)).trouble = none ↔
      ∃ v, s.results docs = .ok v := by
  have hrun := congrArg Prod.snd (run_name hd hdocs h)
  rw [show (outcomeOf files definition docsPath (some s.name)).trouble = _ from hrun]
  cases s.results docs <;> simp [report, Except.map]

/-- a run of all views succeeds exactly if each of their runs does -/
theorem run_all_ok : (outcomeOf files definition docsPath none).trouble = none ↔
    ∀ s ∈ javaScriptViews d,
      (outcomeOf files definition docsPath (some s.name)).trouble = none := by
  have hrun := congrArg Prod.snd (run_all hd hdocs)
  rw [show (outcomeOf files definition docsPath none).trouble = _ from hrun, report_trouble,
    resultsOf_ok_iff]
  refine forall₂_congr fun s hs => ?_
  rw [run_name_ok hd hdocs (mem_javaScriptViews.mp hs).1]

/-- each entry of a run of all views is printed by the run of its view -/
theorem run_entry {name : String} {v : Json}
    (h : resultsOf docs (javaScriptViews d) = .ok entries) (hmem : (name, v) ∈ entries) :
    (outcomeOf files definition docsPath (some name)).texts = [(Json.obj [(name, v)]).pretty] ∧
      ∃ s rows, d.spec name = .ok s ∧ s.evaluate docs = .ok rows ∧
        v = .arr ((s.processResults rows).map ViewResult.encode) := by
  obtain ⟨s, hs, rfl, hv⟩ := mem_resultsOf h hmem
  dsimp only at hv
  have hspec := (mem_javaScriptViews.mp hs).1
  refine ⟨?_, s, ?_⟩
  · have hrun := congrArg Prod.fst (run_name hd hdocs hspec)
    rw [show (outcomeOf files definition docsPath (some s.name)).texts = _ from hrun, hv]
    rfl
  · rw [ViewSpec.results] at hv
    cases hrows : s.evaluate docs with
    | error e => rw [hrows] at hv; cases hv
    | ok rows =>
      rw [hrows] at hv
      exact ⟨rows, DesignDefinition.mem_specs.mp hspec, rfl, (Except.ok.inj hv).symm⟩

/-- a run that fails prints nothing -/
theorem run_failed {view : Option String}
    (h : (outcomeOf files definition docsPath view).trouble ≠ none) :
    (outcomeOf files definition docsPath view).texts = [] := by
  have hrun := outcomeOf_report hd hdocs view
  rw [show (outcomeOf files definition docsPath view).trouble = _ from congrArg Prod.snd hrun] at h
  rw [show (outcomeOf files definition docsPath view).texts = _ from congrArg Prod.fst hrun]
  cases hr : d.evaluable view >>= resultsOf docs with
  | error e => rfl
  | ok entries => rw [hr] at h; exact absurd rfl h

end

/-- **Running all views agrees with running each one by name.** -/
theorem runs_agree (hd : Id.run (loadFile files DesignDefinition.decoder definition) = .ok d)
    (hdocs : Id.run (loadFile files (Decoder.list Decoder.free) docsPath) = .ok docs) :
    let run := outcomeOf files definition docsPath
    -- it succeeds exactly if the runs of all its views do
    ((run none).trouble = none ↔ ∀ s ∈ javaScriptViews d, (run (some s.name)).trouble = none) ∧
    -- it then prints the entries that these runs print
    ((run none).trouble = none → ∃ entries, (run none).texts = [(Json.obj entries).pretty] ∧
      entries.map Prod.fst = (javaScriptViews d).map ViewSpec.name ∧
      ∀ name v, (name, v) ∈ entries →
        (run (some name)).texts = [(Json.obj [(name, v)]).pretty] ∧
        ∃ s rows, d.spec name = .ok s ∧ s.evaluate docs = .ok rows ∧
          v = .arr ((s.processResults rows).map ViewResult.encode)) ∧
    -- views in the other language fail by name, and do not matter otherwise
    (∀ s ∈ d.specs, s.language = .erlang →
      (run (some s.name)).trouble = some ⟨none, .cannotEvaluate .erlang⟩) ∧
    (∀ definition' d', Id.run (loadFile files DesignDefinition.decoder definition') = .ok d' →
      javaScriptViews d' = javaScriptViews d →
      (outcomeOf files definition' docsPath none).texts = (run none).texts ∧
        (outcomeOf files definition' docsPath none).trouble = (run none).trouble) ∧
    -- names of no view fail
    (∀ name, (∀ s ∈ d.specs, s.name ≠ name) →
      (run (some name)).trouble = some ⟨none, .noSuchView d.model name⟩) ∧
    -- nothing is printed by a run that fails
    ∀ view, (run view).trouble ≠ none → (run view).texts = [] := by
  intro run
  refine ⟨run_all_ok hd hdocs, fun hok => ?_, fun s hs hl => ?_,
    fun definition' d' hd' hviews => ?_,
    fun name hname => congrArg Prod.snd (run_unknown hd hdocs hname),
    fun view => run_failed hd hdocs⟩
  · have hrun := run_all hd hdocs
    obtain ⟨entries, hentries⟩ := report_trouble.mp ((congrArg Prod.snd hrun).symm.trans hok)
    refine ⟨entries, ?_, names_resultsOf hentries, fun name v => run_entry hd hdocs hentries⟩
    rw [← object_resultsOf hentries]
    exact (congrArg Prod.fst hrun).trans (by rw [hentries]; rfl)
  · have hrun := congrArg Prod.snd (run_name hd hdocs hs)
    rw [results_erlang hl] at hrun
    exact hrun
  · have hsame : verdict (outcomeOf files definition' docsPath none) = verdict (run none) := by
      rw [run_all hd' hdocs, hviews, run_all hd hdocs]
    exact ⟨congrArg Prod.fst hsame, congrArg Prod.snd hsame⟩

/-! ## A definition in two languages -/

open Script Evaluation

/-- A view of the users that are admins. -/
def admins : ViewDefinition := { view := { conditions := some "doc.admin" } }

/-- A view of all users by their names, with the documents. -/
def byName : ViewDefinition :=
  { view := { key := some (.single "name") }, query := { includeDocs := some true } }

/-- A definition of these two views. -/
def plainDefinition : DesignDefinition where
  model := "User"
  views := (NameMap.empty.insert "admins" admins).insert "by_name" byName

/-- The same definition with a third view in the other language. -/
def bilingualDefinition : DesignDefinition where
  model := "User"
  views := plainDefinition.views.insert "ids" { view := { language := .erlang } }

/-- A user. -/
def user (id : String) (admin : Bool) (name : String) : Json :=
  .obj [("_id", .str id), ("admin", .bool admin), ("name", .str name), ("ruby_class", .str "User")]

/-- Two users, and a document of another class. -/
def people : List Json :=
  [user "1" true "Ada", .obj [("_id", .str "2"), ("ruby_class", .str "Post")], user "3" false "Bob"]

/-- Files with the two definitions; all others hold these documents. -/
def bilingualFiles : Files Id where
  kind? _ := some .file
  list _ := .ok []
  read path :=
    if path = "user.json" then .ok bilingualDefinition.encode.compact
    else if path = "plain.json" then .ok plainDefinition.encode.compact
    else .ok (Json.arr people).compact

theorem load_ok {α : Type} {decoder : Decoder α} {path text : String} {format : Format} {a : α}
    (hformat : Format.ofFile path = .ok format) (hread : Id.run (files.read path) = .ok text)
    (hparse : format.parse decoder text = .ok a) :
    Id.run (loadFile files decoder path) = .ok a := by
  rw [loadFile, hformat]
  show decodeFile path format decoder (Id.run (files.read path)) = _
  rw [hread, decodeFile, hparse]
  rfl

theorem storable_bilingualDefinition : bilingualDefinition.Storable := by
  have hquery : ∀ b, ({ includeDocs := b } : QueryOptions).Storable := fun b =>
    ⟨by rintro _ ⟨⟩, by rintro _ ⟨⟩, by rintro _ ⟨⟩, by rintro _ ⟨⟩⟩
  have hentries : bilingualDefinition.views.entries =
      [("admins", admins), ("by_name", byName), ("ids", { view := { language := .erlang } })] := rfl
  unfold DesignDefinition.Storable
  rw [hentries]
  simp only [List.forall_mem_cons]
  exact ⟨⟨trivial, hquery none⟩, ⟨trivial, hquery (some true)⟩, ⟨trivial, hquery none⟩, by simp⟩

theorem load_bilingualDefinition :
    Id.run (loadFile bilingualFiles DesignDefinition.decoder "user.json") =
      .ok bilingualDefinition := by
  have hread : Id.run (bilingualFiles.read "user.json") =
      .ok bilingualDefinition.encode.compact := by
    simp only [bilingualFiles, if_true]
    rfl
  exact load_ok rfl hread
    ((DesignDefinition.readsBack storable_bilingualDefinition).parse (by decide)).1

theorem load_plainDefinition :
    Id.run (loadFile bilingualFiles DesignDefinition.decoder "plain.json") =
      .ok plainDefinition := by
  have hstorable : plainDefinition.Storable := fun e he =>
    storable_bilingualDefinition e (List.mem_of_mem_take (i := 2) he)
  have hread : Id.run (bilingualFiles.read "plain.json") = .ok plainDefinition.encode.compact := by
    simp only [bilingualFiles, String.reduceEq, if_false, if_true]
    rfl
  exact load_ok rfl hread ((DesignDefinition.readsBack hstorable).parse (by decide)).1

theorem load_people :
    Id.run (loadFile bilingualFiles (Decoder.list Decoder.free) "docs.json") = .ok people := by
  have hread : Id.run (bilingualFiles.read "docs.json") = .ok (Json.arr people).compact := by
    simp only [bilingualFiles, String.reduceEq, if_false]
    rfl
  have hplain : ∀ d ∈ people, d.Plain := by
    have huser : ∀ id admin name, (user id admin name).Plain := fun _ _ _ =>
      ⟨Entries.ascending_of_names ["_id", "admin", "name", "ruby_class"] rfl (by decide),
        trivial, trivial, trivial, trivial, trivial⟩
    have hpost : (Json.obj [("_id", .str "2"), ("ruby_class", .str "Post")]).Plain :=
      ⟨Entries.ascending_of_names ["_id", "ruby_class"] rfl (by decide), trivial, trivial, trivial⟩
    simp only [people, List.forall_mem_cons]
    exact ⟨huser _ _ _, hpost, huser _ _ _, by simp⟩
  exact load_ok rfl hread ((ReadsBack.list
    (List.forall₂_same.mpr fun d hd => .free (hplain d hd))).parse (by decide)).1

/-! ### Its views -/

/-- The condition of the first view. -/
def isAdmin : Expr := .member (.name "doc") (.text "admin")

theorem isWhole_isAdmin : Expr.IsWhole "doc.admin".toList isAdmin := by
  have hscan : Lexeme.scan? "doc.admin".toList =
      some [word "doc", mark .dot, word "admin"] := by
    decide
  exact ⟨_, .of_silent hscan (by decide), by cbv⟩

/-- What the script of the first view records, document by document. -/
def adminRecords : List (List Emitted) := [[⟨some (.str ""), some (.num (.int 1))⟩], [], []]

/-- What the script of the second view records. -/
def nameRecords : List (List Emitted) :=
  [[⟨some (.str "Ada"), some (.num (.int 1))⟩], [], [⟨some (.str "Bob"), some (.num (.int 1))⟩]]

set_option maxRecDepth 20000 in
theorem gives_people :
    gives adminRecords ((runAll (program (docsText people)
      (mapperOf "User" (some isAdmin) none (.number (.int 1))).expr)).run' Realm.heap) = true ∧
    gives nameRecords ((runAll (program (docsText people)
      (mapperOf "User" none (some (.single "name")) (.number (.int 1))).expr)).run' Realm.heap) =
        true := by
  decide +kernel

/-- The specification of a view of users. -/
def specOf (name : String) (v : ViewDefinition) : ViewSpec := ⟨"User", name, v.view, v.query⟩

theorem results_people : (specOf "admins" admins).results people = .ok (.arr [.str "1"]) ∧
    (specOf "by_name" byName).results people =
      .ok (.arr [user "1" true "Ada", user "3" false "Bob"]) := by
  have hadmins : Mapped (specOf "admins" admins)
      (mapperOf "User" (some isAdmin) none (.number (.int 1))) := by
    refine Mapped.of_fragments rfl rfl (.some isWhole_isAdmin)
      MapFunction.JavaScript.isSingle_one ?_ rfl
    rintro _ ⟨⟩
    rfl
  have hbyName : Mapped (specOf "by_name" byName)
      (mapperOf "User" none (some (.single "name")) (.number (.int 1))) :=
    Mapped.of_fragments rfl rfl .none MapFunction.JavaScript.isSingle_one (by rintro _ ⟨⟩) rfl
  have hread : ∀ k, Emitted.reread ⟨some (.str k), some (.num (.int 1))⟩ =
      some (.str k, .num (.int 1)) := fun k =>
    Emitted.reread_plain trivial (Nat.zero_le _) ⟨by decide, by decide⟩ (Nat.zero_le _)
  have hfinite : ∀ k, Emitted.Finite ⟨some (.str k), some (.num (.int 1))⟩ := fun k =>
    ⟨by rintro _ ⟨⟩; trivial, by rintro _ ⟨⟩; trivial⟩
  constructor
  · have hrecords : readRecords 0 adminRecords = some [⟨.int 0, .str "", .num (.int 1)⟩] := by
      simp [readRecords, adminRecords, hread]
    rw [ViewSpec.results, hadmins.evaluate_of_gives gives_people.1
      (by simp [adminRecords, hfinite]) (by decide) hrecords]
    rfl
  · have hrecords : readRecords 0 nameRecords =
        some [⟨.int 0, .str "Ada", .num (.int 1)⟩, ⟨.int 2, .str "Bob", .num (.int 1)⟩] := by
      simp [readRecords, nameRecords, hread]
    rw [ViewSpec.results, hbyName.evaluate_of_gives gives_people.2
      (by simp [nameRecords, hfinite]) (by decide) hrecords]
    rfl

/-! ### Its runs -/

/-- Runs of the definition over the documents. -/
abbrev bilingualRun : Option String → Outcome := outcomeOf bilingualFiles "user.json" "docs.json"

/-- a run by name prints the ids of the users, or the users, and a run of all prints both; the view
in the other language fails, and so does a name of no view -/
theorem runs_agree_bilingual :
    (bilingualRun (some "admins")).texts = [(Json.obj [("admins", .arr [.str "1"])]).pretty] ∧
      (bilingualRun (some "by_name")).texts =
        [(Json.obj [("by_name", .arr [user "1" true "Ada", user "3" false "Bob"])]).pretty] ∧
      (bilingualRun none).trouble = none ∧
      (bilingualRun none).texts = [(Json.obj [("admins", .arr [.str "1"]),
        ("by_name", .arr [user "1" true "Ada", user "3" false "Bob"])]).pretty] ∧
      (outcomeOf bilingualFiles "plain.json" "docs.json" none).texts = (bilingualRun none).texts ∧
      (bilingualRun (some "ids")).trouble = some ⟨none, .cannotEvaluate .erlang⟩ ∧
      (bilingualRun (some "ids")).texts = [] ∧
      (bilingualRun (some "other")).trouble = some ⟨none, .noSuchView "User" "other"⟩ := by
  have hspecs : bilingualDefinition.specs = [specOf "admins" admins, specOf "by_name" byName,
      specOf "ids" { view := { language := .erlang } }] := rfl
  have hviews : javaScriptViews bilingualDefinition =
      [specOf "admins" admins, specOf "by_name" byName] := rfl
  obtain ⟨hadmins, hbyName⟩ := results_people
  obtain ⟨hall, hprints, herlang, hsame, hunknown, hfailed⟩ :=
    runs_agree load_bilingualDefinition load_people
  have hok : (bilingualRun none).trouble = none := by
    rw [hall, hviews]
    have hmem : ∀ s ∈ [specOf "admins" admins, specOf "by_name" byName],
        s ∈ bilingualDefinition.specs := fun s hs => by
      rw [hspecs]
      exact List.mem_append_left [_] hs
    intro s hs
    rw [run_name_ok load_bilingualDefinition load_people (hmem s hs)]
    simp only [List.mem_cons, List.not_mem_nil, or_false] at hs
    obtain rfl | rfl := hs
    · exact ⟨_, hadmins⟩
    · exact ⟨_, hbyName⟩
  obtain ⟨entries, htexts, hnames, hentries⟩ := hprints hok
  -- an entry is the results of the view that has its name
  have hvalue : ∀ name v s, (name, v) ∈ entries → bilingualDefinition.spec name = .ok s →
      s.results people = .ok v := by
    intro name v s he hs
    obtain ⟨-, s', rows, hs', hrows, rfl⟩ := hentries name v he
    cases hs.symm.trans hs'
    rw [ViewSpec.results, hrows]
    rfl
  obtain ⟨v, w, rfl⟩ : ∃ v w, entries = [("admins", v), ("by_name", w)] := by
    rw [hviews] at hnames
    match entries, hnames with
    | [(_, v), (_, w)], rfl => exact ⟨v, w, rfl⟩
  cases (hvalue "admins" v _ (by simp) rfl).symm.trans hadmins
  cases (hvalue "by_name" w _ (by simp) rfl).symm.trans hbyName
  have hids : (bilingualRun (some "ids")).trouble = some ⟨none, .cannotEvaluate .erlang⟩ :=
    herlang (specOf "ids" { view := { language := .erlang } }) (by rw [hspecs]; simp) rfl
  refine ⟨(hentries _ _ (by simp)).1, (hentries _ _ (by simp)).1, hok, htexts,
    (hsame "plain.json" plainDefinition load_plainDefinition rfl).1, hids,
    hfailed _ (by rw [hids]; simp), hunknown "other" ?_⟩
  rw [hspecs]
  simp [specOf]

end Command

end ViewDesign
