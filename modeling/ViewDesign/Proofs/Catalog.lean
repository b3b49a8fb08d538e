import ViewDesign.Catalog
import ViewDesign.Proofs.Traversal

/-!
# Loading stops at the first fault

Patterns are loaded one after the other, and what the search for each of them comes upon one after
the other: paths, and directories that cannot be listed.  Both loops go through a list, fail at its
first element that fails, and otherwise collect what the elements give; so both are `List.mapM`.

* `definitionsOf`            the definitions that fit some patterns, or the first trouble;
* `matched`                  what the search for a pattern comes upon, or the fault of the pattern;
* `definitionsOf_eq_mapM`    the outer loop, `result_loadHits` the inner one;
* `loading_in_order`         what is loaded, and which failure is reported.
-/

namespace ViewDesign

open Glob.Search (Hit Unlisted)

/-! ## The two loops -/

section
variable (files : Files Id)

/-- What the search for a pattern comes upon, or the fault of the pattern. -/
def matched (pattern : String) : Except Glob.Fault (List Hit) :=
  (Glob.Search.ofText pattern).map fun search => Id.run (search.run files)

/-- Whether there is a file at a path. -/
def isFile (path : String) : Bool := Id.run (files.kind? path) = some .file

/-- The definition in a file. -/
def definitionIn (path : String) : Except Failure DesignDefinition :=
  Id.run (loadFile files DesignDefinition.decoder path)

/-- The trouble with a file that does not load. -/
def fileTrouble (path : String) (e : Failure) : Trouble :=
  ⟨some ("failed to load definitions from " ++ path), e⟩

/-- The trouble with a directory that cannot be listed. -/
def listingTrouble (u : Unlisted) : Trouble := ⟨none, .unreadable (.directory u.path) u.fault⟩

/-- The definition in a file, or the trouble with it. -/
def definitionAt (path : String) : Except Trouble DesignDefinition :=
  (definitionIn files path).mapError (fileTrouble path)

/-- The definition in a file that was found, or the trouble with what was found. -/
def hitDefinition : Hit → Except Trouble DesignDefinition
  | .ok path => definitionAt files path
  | .error u => .error (listingTrouble u)

/-- Paths as what a search comes upon. -/
def hitsOf (paths : List String) : List Hit := paths.map .ok

/-- Whether what was found matters: paths without a file do not. -/
def matters : Hit → Bool
  | .ok path => isFile files path
  | .error _ => true

/-- The definitions that fit a pattern. -/
def definitionsFor (pattern : String) : Except Trouble (List DesignDefinition) :=
  (Id.run (loadPattern files pattern)).result

/-- The definitions that fit some patterns, or the first trouble. -/
def definitionsOf (patterns : List String) : Except Trouble (List DesignDefinition) :=
  (Id.run (loadPatterns files patterns)).result

end

theorem Loading.result_andThen (first second : Loading) :
    (Id.run (first.andThen (pure second))).result =
      do return (← first.result) ++ (← second.result) := by
  obtain ⟨loaded, trouble⟩ := first
  obtain ⟨loaded', trouble'⟩ := second
  cases trouble with
  | some t => rfl
  | none =>
    cases trouble' with
    | some t => rfl
    | none =>
      show Except.ok ((loaded ++ loaded').map Prod.snd) = _
      rw [List.map_append]
      rfl

variable {files : Files Id} {pattern path : String} {t : Trouble} {ds : List DesignDefinition}

theorem loadPath_of_file (h : isFile files path = true) :
    (Id.run (loadPath files path)).result = (definitionAt files path).map ([·]) := by
  have hkind : Id.run (files.kind? path) = some .file := of_decide_eq_true h
  simp only [loadPath, Id.run_bind, hkind, if_true]
  cases hload : definitionIn files path with
  | ok d =>
    rw [definitionAt, hload,
      show Id.run (loadFile files DesignDefinition.decoder path) = _ from hload]
    rfl
  | error e =>
    rw [definitionAt, hload,
      show Id.run (loadFile files DesignDefinition.decoder path) = _ from hload]
    rfl

theorem loadPath_of_no_file (h : isFile files path = false) :
    Id.run (loadPath files path) = {} := by
  have hkind : Id.run (files.kind? path) ≠ some .file := of_decide_eq_false h
  simp only [loadPath, Id.run_bind, hkind, if_false]
  rfl

theorem loadHit_of_matters {x : Hit} (h : matters files x = true) :
    (Id.run (loadHit files x)).result = (hitDefinition files x).map ([·]) := by
  cases x with
  | ok path => exact loadPath_of_file h
  | error u => rfl

theorem loadHits_cons_of_not_matters {x : Hit} (h : matters files x = false)
    (rest : List Hit) :
    Id.run (loadHits files (x :: rest)) = Id.run (loadHits files rest) := by
  cases x with
  | ok path =>
    show Id.run ((Id.run (loadPath files path)).andThen (loadHits files rest)) = _
    rw [loadPath_of_no_file h]
    rfl
  | error u => cases h

/-- paths without a file are passed over -/
theorem loadHits_filter (hits : List Hit) :
    Id.run (loadHits files hits) =
      Id.run (loadHits files (hits.filter (matters files))) := by
  induction hits with
  | nil => rfl
  | cons x rest ih =>
    cases hx : matters files x with
    | false =>
      rw [loadHits_cons_of_not_matters hx, List.filter_cons_of_neg (by simp [hx]), ih]
    | true =>
      rw [List.filter_cons_of_pos hx]
      exact congrArg (fun l => Id.run ((Id.run (loadHit files x)).andThen (pure l))) ih

theorem result_loadHits (hits : List Hit) :
    (Id.run (loadHits files hits)).result =
      (hits.filter (matters files)).mapM (hitDefinition files) := by
  induction hits with
  | nil => rfl
  | cons x rest ih =>
    cases hx : matters files x with
    | false =>
      rw [loadHits_cons_of_not_matters hx, List.filter_cons_of_neg (by simp [hx]), ih]
    | true =>
      have hstep : (Id.run (loadHits files (x :: rest))).result =
          do return (← (hitDefinition files x).map ([·])) ++
            (← (Id.run (loadHits files rest)).result) := by
        rw [← loadHit_of_matters hx]
        exact Loading.result_andThen _ _
      rw [hstep, ih, List.filter_cons_of_pos hx, List.mapM_cons]
      cases hitDefinition files x with
      | error t => rfl
      | ok d => cases (rest.filter (matters files)).mapM (hitDefinition files) <;> rfl

theorem definitionsOf_cons (patterns : List String) :
    definitionsOf files (pattern :: patterns) =
      do return (← definitionsFor files pattern) ++ (← definitionsOf files patterns) :=
  Loading.result_andThen _ _

theorem definitionsOf_eq_mapM (patterns : List String) :
    definitionsOf files patterns =
      (patterns.mapM (definitionsFor files)).map List.flatten := by
  induction patterns with
  | nil => rfl
  | cons pattern rest ih =>
    rw [definitionsOf_cons, ih, List.mapM_cons]
    cases definitionsFor files pattern with
    | error t => rfl
    | ok ds => cases rest.mapM (definitionsFor files) <;> rfl

/-! ## One pattern -/

theorem definitionsFor_of_fault {fault : Glob.Fault} (h : matched files pattern = .error fault) :
    definitionsFor files pattern = .error ⟨none, .badPattern pattern fault⟩ := by
  unfold matched at h
  unfold definitionsFor loadPattern
  cases hsearch : Glob.Search.ofText pattern with
  | ok search => rw [hsearch] at h; cases h
  | error fault' =>
    rw [hsearch] at h
    obtain rfl : fault' = fault := Except.error.inj h
    rfl

theorem definitionsFor_of_hits {hits : List Hit} (h : matched files pattern = .ok hits) :
    definitionsFor files pattern =
      (hits.filter (matters files)).mapM (hitDefinition files) := by
  unfold matched at h
  unfold definitionsFor loadPattern
  cases hsearch : Glob.Search.ofText pattern with
  | error fault => rw [hsearch] at h; cases h
  | ok search =>
    rw [hsearch] at h
    obtain rfl : Id.run (search.run files) = hits := Except.ok.inj h
    exact result_loadHits _

theorem definitionAt_ok_iff {d : DesignDefinition} :
    definitionAt files path = .ok d ↔ definitionIn files path = .ok d := by
  unfold definitionAt
  cases definitionIn files path <;> simp [Except.mapError]

theorem definitionAt_error_iff :
    definitionAt files path = .error t ↔
      ∃ e, definitionIn files path = .error e ∧ t = fileTrouble path e := by
  unfold definitionAt
  cases definitionIn files path <;> simp [Except.mapError, eq_comm]

/-- where everything loads, all that was found are paths -/
theorem mapM_hitDefinition_ok_iff {hits : List Hit} :
    (hits.filter (matters files)).mapM (hitDefinition files) = .ok ds ↔
      ∃ fit, hits = hitsOf fit ∧
        List.Forall₂ (fun path d => definitionIn files path = .ok d)
          (fit.filter (isFile files)) ds := by
  have hpaths : ∀ fit : List String, ((hitsOf fit).filter (matters files)).mapM
      (hitDefinition files) = (fit.filter (isFile files)).mapM (definitionAt files) := by
    intro fit
    rw [hitsOf, List.filter_map, List.mapM_map]
    rfl
  constructor
  · intro h
    have hall : ∀ x ∈ hits, ∃ path, x = .ok path := by
      intro x hx
      cases x with
      | ok path => exact ⟨path, rfl⟩
      | error u =>
        obtain ⟨d, hd⟩ := exists_mapM_ok_iff.mp ⟨ds, h⟩ (.error u) (by simp [hx, matters])
        cases hd
    obtain ⟨fit, hfit⟩ := exists_forall₂_iff.mpr hall
    obtain rfl : hits = hitsOf fit := by
      rwa [hitsOf, ← List.forall₂_eq_eq_eq, List.forall₂_map_right_iff]
    rw [hpaths, mapM_ok_iff] at h
    exact ⟨fit, rfl, h.imp fun _ _ => definitionAt_ok_iff.mp⟩
  · rintro ⟨fit, rfl, h⟩
    rw [hpaths, mapM_ok_iff]
    exact h.imp fun _ _ => definitionAt_ok_iff.mpr

theorem definitionsFor_ok_iff :
    definitionsFor files pattern = .ok ds ↔ ∃ fit, matched files pattern = .ok (hitsOf fit) ∧
      List.Forall₂ (fun path d => definitionIn files path = .ok d)
        (fit.filter (isFile files)) ds := by
  cases hmatched : matched files pattern with
  | error fault => simp [definitionsFor_of_fault hmatched]
  | ok hits =>
    simp [definitionsFor_of_hits hmatched, mapM_hitDefinition_ok_iff]

/-- The files at some paths load. -/
def AllLoad (files : Files Id) (paths : List String) : Prop :=
  ∀ p ∈ paths, isFile files p = true → ∃ d, definitionIn files p = .ok d

/-- The trouble with a pattern: its own fault, or the first directory that cannot be listed or file
that does not load. -/
def PatternFails (files : Files Id) (pattern : String) (t : Trouble) : Prop :=
  (∃ fault, matched files pattern = .error fault ∧ t = ⟨none, .badPattern pattern fault⟩) ∨
  (∃ earlier u later, matched files pattern = .ok (hitsOf earlier ++ .error u :: later) ∧
    AllLoad files earlier ∧ t = listingTrouble u) ∨
  ∃ earlier path later e, matched files pattern = .ok (hitsOf earlier ++ .ok path :: later) ∧
    AllLoad files earlier ∧ isFile files path = true ∧ definitionIn files path = .error e ∧
      t = fileTrouble path e

theorem exists_mapM_hitDefinition_iff {hits : List Hit} :
    (∃ ds, (hits.filter (matters files)).mapM (hitDefinition files) = .ok ds) ↔
      ∃ fit, hits = hitsOf fit ∧ AllLoad files fit := by
  simp only [mapM_hitDefinition_ok_iff]
  rw [exists_comm]
  refine exists_congr fun fit => ?_
  simp only [exists_and_left, exists_forall₂_iff, List.mem_filter, and_imp]
  rfl

/-- the first of those found that fails stands behind paths that load -/
theorem mapM_hitDefinition_error_iff {hits : List Hit} :
    (hits.filter (matters files)).mapM (hitDefinition files) = .error t ↔
      ∃ earlier x later, hits = hitsOf earlier ++ x :: later ∧ AllLoad files earlier ∧
        matters files x = true ∧ hitDefinition files x = .error t := by
  rw [mapM_error_iff]
  constructor
  · rintro ⟨before, x, after, hfilter, hbefore, hx⟩
    obtain ⟨first, second, rfl, rfl, hsecond⟩ := List.filter_eq_append_iff.mp hfilter
    obtain ⟨middle, later, rfl, hmiddle, hmatters, rfl⟩ := List.filter_eq_cons_iff.mp hsecond
    have hskip : middle.filter (matters files) = [] := List.filter_eq_nil_iff.mpr hmiddle
    have hfirst : (first ++ middle).filter (matters files) = first.filter (matters files) := by
      rw [List.filter_append, hskip, List.append_nil]
    rw [← hfirst] at hbefore
    obtain ⟨earlier, hearlier, hload⟩ := exists_mapM_hitDefinition_iff.mp hbefore
    refine ⟨earlier, x, later, ?_, hload, hmatters, hx⟩
    rw [← List.append_assoc, hearlier]
  · rintro ⟨earlier, x, later, rfl, hearlier, hmatters, hx⟩
    refine ⟨(hitsOf earlier).filter (matters files), x, later.filter (matters files), ?_,
      exists_mapM_hitDefinition_iff.mpr ⟨earlier, rfl, hearlier⟩, hx⟩
    rw [List.filter_append, List.filter_cons_of_pos hmatters]

theorem definitionsFor_error_iff :
    definitionsFor files pattern = .error t ↔ PatternFails files pattern t := by
  unfold PatternFails
  cases hmatched : matched files pattern with
  | error fault =>
    rw [definitionsFor_of_fault hmatched, Except.error.injEq, eq_comm]
    simp
  | ok hits =>
    rw [definitionsFor_of_hits hmatched, mapM_hitDefinition_error_iff]
    simp only [reduceCtorEq, false_and, exists_false, false_or, Except.ok.injEq]
    constructor
    · rintro ⟨earlier, x, later, rfl, hearlier, hmatters, hx⟩
      cases x with
      | error u => exact .inl ⟨earlier, u, later, rfl, hearlier, (Except.error.inj hx).symm⟩
      | ok path =>
        obtain ⟨e, he, rfl⟩ := definitionAt_error_iff.mp hx
        exact .inr ⟨earlier, path, later, e, rfl, hearlier, hmatters, he, rfl⟩
    · rintro (⟨earlier, u, later, rfl, hearlier, rfl⟩ |
        ⟨earlier, path, later, e, rfl, hearlier, hfile, he, rfl⟩)
      · exact ⟨earlier, .error u, later, rfl, hearlier, rfl, rfl⟩
      · exact ⟨earlier, .ok path, later, rfl, hearlier, hfile,
          definitionAt_error_iff.mpr ⟨e, he, rfl⟩⟩

/-! ## All patterns -/

theorem definitionsOf_append (ps qs : List String) :
    definitionsOf files (ps ++ qs) = do
      let ds ← definitionsOf files ps
      let es ← definitionsOf files qs
      return ds ++ es := by
  simp only [definitionsOf_eq_mapM, List.mapM_append]
  cases ps.mapM (definitionsFor files) with
  | error t => rfl
  | ok dss =>
    cases qs.mapM (definitionsFor files) with
    | error t => rfl
    | ok ess => exact congrArg Except.ok List.flatten_append

/-- every file that fits a pattern gives a definition, in order -/
theorem definitionsOf_ok_iff {ps : List String} :
    definitionsOf files ps = .ok ds ↔
      ∃ fits, List.Forall₂ (fun p fit => matched files p = .ok (hitsOf fit)) ps fits ∧
        List.Forall₂ (fun path d => definitionIn files path = .ok d)
          (fits.flatten.filter (isFile files)) ds := by
  induction ps generalizing ds with
  | nil =>
    have hnil : definitionsOf files [] = .ok [] := rfl
    simp [hnil, eq_comm]
  | cons p ps ih =>
    simp only [definitionsOf_cons, bind_ok_iff, definitionsFor_ok_iff, ih,
      List.forall₂_cons_left_iff]
    constructor
    · rintro ⟨ds, ⟨fit, hfit, hds⟩, es, ⟨fits, hfits, hes⟩, ⟨⟩⟩
      refine ⟨fit :: fits, ⟨fit, fits, hfit, hfits, rfl⟩, ?_⟩
      rw [List.flatten_cons, List.filter_append]
      exact List.rel_append hds hes
    · rintro ⟨_, ⟨fit, fits, hfit, hfits, rfl⟩, hall⟩
      rw [List.flatten_cons, List.filter_append] at hall
      have hfirst := List.forall₂_take (fit.filter (isFile files)).length hall
      have hrest := List.forall₂_drop (fit.filter (isFile files)).length hall
      rw [List.take_left] at hfirst
      rw [List.drop_left] at hrest
      exact ⟨_, ⟨fit, hfit, hfirst⟩, _, ⟨fits, hfits, hrest⟩,
        congrArg Except.ok (List.take_append_drop _ _)⟩

/-- the trouble is that of the first pattern that has some -/
theorem definitionsOf_error_iff {ps : List String} :
    definitionsOf files ps = .error t ↔
      ∃ before p after ds, ps = before ++ p :: after ∧ definitionsOf files before = .ok ds ∧
        PatternFails files p t := by
  have herror : definitionsOf files ps = .error t ↔ ps.mapM (definitionsFor files) = .error t := by
    rw [definitionsOf_eq_mapM]
    cases ps.mapM (definitionsFor files) <;> simp [Except.map]
  have hok : ∀ before, (∃ ds, definitionsOf files before = .ok ds) ↔
      ∃ dss, before.mapM (definitionsFor files) = .ok dss := by
    intro before
    rw [definitionsOf_eq_mapM, exists_ok_map]
  simp only [herror, mapM_error_iff, ← hok, definitionsFor_error_iff]
  constructor
  · rintro ⟨before, p, after, rfl, ⟨ds, hbefore⟩, hp⟩
    exact ⟨before, p, after, ds, rfl, hbefore, hp⟩
  · rintro ⟨before, p, after, ds, rfl, hbefore, hp⟩
    exact ⟨before, p, after, rfl, ⟨ds, hbefore⟩, hp⟩

/-- **Loading stops at the first fault.** -/
theorem loading_in_order (files : Files Id) :
    -- patterns are loaded one after the other, and the first failure is that of all
    (∀ ps qs, definitionsOf files (ps ++ qs) = do
      let ds ← definitionsOf files ps
      let es ← definitionsOf files qs
      return ds ++ es) ∧
    -- there is one definition for every pattern and every file that fits it, in this order, if
    -- every directory could be listed
    (∀ ps ds, definitionsOf files ps = .ok ds ↔
      ∃ fits, List.Forall₂ (fun p fit => matched files p = .ok (hitsOf fit)) ps fits ∧
        List.Forall₂ (fun path d => definitionIn files path = .ok d)
          (fits.flatten.filter (isFile files)) ds) ∧
    -- whatever is found, paths without a file make no difference
    (∀ hits, Id.run (loadHits files hits) =
      Id.run (loadHits files (hits.filter (matters files)))) ∧
    -- the failure is that of the first pattern with a fault, the first directory that cannot be
    -- listed or the first file that does not load
    ∀ ps t, definitionsOf files ps = .error t ↔
      ∃ before p after ds, ps = before ++ p :: after ∧ definitionsOf files before = .ok ds ∧
        ((∃ fault, matched files p = .error fault ∧ t = ⟨none, .badPattern p fault⟩) ∨
          (∃ earlier u later, matched files p = .ok (hitsOf earlier ++ .error u :: later) ∧
            (∀ q ∈ earlier, isFile files q = true → ∃ d, definitionIn files q = .ok d) ∧
            t = ⟨none, .unreadable (.directory u.path) u.fault⟩) ∨
          ∃ earlier path later e, matched files p = .ok (hitsOf earlier ++ .ok path :: later) ∧
            (∀ q ∈ earlier, isFile files q = true → ∃ d, definitionIn files q = .ok d) ∧
            isFile files path = true ∧ definitionIn files path = .error e ∧
            t = ⟨some ("failed to load definitions from " ++ path), e⟩) :=
  ⟨definitionsOf_append, fun _ _ => definitionsOf_ok_iff, loadHits_filter,
    fun _ _ => definitionsOf_error_iff⟩

end ViewDesign
