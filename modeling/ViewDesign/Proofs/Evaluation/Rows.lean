import ViewDesign.Proofs.Document.Records
import ViewDesign.Proofs.Evaluation.Lookup
import ViewDesign.Proofs.Evaluation.Parsing

/-!
# From records to rows

What the script gives is read back record by record, and each record carries the number of its
document, so it becomes a row of that document again.

* `Emitted.reread`      the key and the value of a record after reading its text;
* `rowsOf`              the rows of one document, if its call succeeds;
* `evaluate_rows`       the rows of a view are those of its documents, one after the other.
-/

namespace ViewDesign.Evaluation

open Script

/-! ## Records -/

/-- How deeply a key or a value may be nested, below the list of the records and a record. -/
def keyDepth : Nat := 125

/-- A key or value of a record after reading its text; one that was left out is null. -/
def rereadPart : Option Json → Option Json
  | none => some .null
  | some j => Json.reread Number.layout keyDepth j

/-- The key and the value of a record after reading its text. -/
def Emitted.reread (e : Emitted) : Option (Json × Json) := do
  let key ← rereadPart e.key
  let value ← rereadPart e.value
  return (key, value)

theorem Emitted.reread_plain {k v : Json} (hk : k.Plain) (hkdepth : k.nesting ≤ keyDepth)
    (hv : v.Plain) (hvdepth : v.nesting ≤ keyDepth) :
    Emitted.reread ⟨some k, some v⟩ = some (k, v) := by
  simp only [Emitted.reread, rereadPart, Json.reread_plain Number.layout k hk keyDepth hkdepth,
    Json.reread_plain Number.layout v hv keyDepth hvdepth]
  rfl

/-- The tree of the text of a record. -/
def recordNode (index : Nat) (e : Emitted) : Node := Json.nodeIn Number.layout (e.record index)

theorem readIndex (ctx : Context) {index : Nat} (h : index < Number.greatestExact) :
    Decoder.number ctx (.numeral (Json.Number.literal Number.layout (.int index))) =
      .ok (.int index) := by
  have hword : index ≤ Numeral.maxWord := by
    have h1 : Number.greatestExact ≤ Numeral.maxWord := by decide
    omega
  simp only [Decoder.number, Decoder.found, Json.value?_literal_nat Number.layout hword]
  rfl

section
variable {σ : Type} {r : Record σ} {ctx : Context}

theorem readMembers_free {k : String} {v : Json} {depth : Nat} {path : Path}
    {rest : List (Node × Node)} {seen : List String} {s : σ} {set : Json → σ → σ}
    {encode : Json → Json} {get : σ → Json}
    (hfield : r.fields.find? (·.name = k) = some (.always k Decoder.free encode get set))
    (hseen : k ∉ seen) :
    (r.readMembers ⟨.text, some depth, path⟩ seen s
        ((.string (some k), Json.nodeIn Number.layout v) :: rest)).toOption =
      (Json.reread Number.layout depth v).bind fun j =>
        (r.readMembers ⟨.text, some depth, path⟩ (k :: seen) (set j s) rest).toOption := by
  rw [Record.readMembers_field hfield hseen, toOption_bind]
  simp only [Field.always, Decoder.map, Decoder.free, Context.member, toOption_map,
    Json.freeNode_written]
  cases Json.reread Number.layout depth v <;> rfl

end

/-- The fields that are met in the text of a record, last to first. -/
def fieldsMet (e : Emitted) : List String :=
  (e.value.map fun _ => "value").toList ++ ((e.key.map fun _ => "key").toList ++ ["index"])

/-- the key and the value of a record are read where they are written -/
theorem readMembers_parts (e : Emitted) (path : Path) (index : Json.Number) :
    (Emission.record.readMembers ⟨.text, some keyDepth, path⟩ ["index"] ⟨index, .null, .null⟩
        (Json.writtenMembers (fun n => .numeral (n.literal Number.layout))
          ((e.key.map fun j => ("key", j)).toList ++
            (e.value.map fun j => ("value", j)).toList))).toOption =
      e.reread.map fun r => (fieldsMet e, ⟨index, r.1, r.2⟩) := by
  obtain ⟨key, value⟩ := e
  cases key with
  | none =>
    cases value with
    | none => rfl
    | some v =>
      simp only [Option.map_none, Option.map_some, Option.toList_none, Option.toList_some,
        List.nil_append, Json.writtenMembers]
      rw [readMembers_free (by rfl) (by simp)]
      simp only [Emitted.reread, rereadPart]
      cases Json.reread Number.layout keyDepth v <;> rfl
  | some k =>
    simp only [Option.map_some, Option.toList_some, List.singleton_append, Json.writtenMembers]
    rw [readMembers_free (by rfl) (by simp)]
    simp only [Emitted.reread, rereadPart]
    cases Json.reread Number.layout keyDepth k with
    | none => rfl
    | some k' =>
      cases value with
      | none => rfl
      | some v =>
        simp only [Option.map_some, Option.toList_some, Json.writtenMembers, Option.bind_some,
          Option.bind_eq_bind]
        rw [readMembers_free (by rfl) (by simp)]
        cases Json.reread Number.layout keyDepth v <;> rfl

/-- the record of an emission is read from its text -/
theorem decode_record {index : Nat} (h : index < Number.greatestExact) (e : Emitted) (path : Path) :
    (Emission.record.decoder ⟨.text, some 126, path⟩ (recordNode index e)).toOption =
      e.reread.map fun r => ⟨.int index, r.1, r.2⟩ := by
  have hindex : Emission.record.readMembers ⟨.text, some keyDepth, path⟩ [] Emission.record.blank
      ((.string (some "index"), .numeral (Json.Number.literal Number.layout (.int index))) ::
        Json.writtenMembers (fun n => .numeral (n.literal Number.layout))
          ((e.key.map fun j => ("key", j)).toList ++ (e.value.map fun j => ("value", j)).toList)) =
      Emission.record.readMembers ⟨.text, some keyDepth, path⟩ ["index"] ⟨.int index, .null, .null⟩
        (Json.writtenMembers (fun n => .numeral (n.literal Number.layout))
          ((e.key.map fun j => ("key", j)).toList ++
            (e.value.map fun j => ("value", j)).toList)) := by
    rw [Record.readMembers_field (by rfl) (by simp)]
    simp only [Field.always, Decoder.map, readIndex _ h]
    rfl
  have hread : (Emission.record.readMembers ⟨.text, some keyDepth, path⟩ [] Emission.record.blank
      ((.string (some "index"), .numeral (Json.Number.literal Number.layout (.int index))) ::
        Json.writtenMembers (fun n => .numeral (n.literal Number.layout))
          ((e.key.map fun j => ("key", j)).toList ++
            (e.value.map fun j => ("value", j)).toList))).toOption =
      e.reread.map fun r => (fieldsMet e, ⟨.int index, r.1, r.2⟩) := by
    rw [hindex, readMembers_parts]
  have hrequired : Emission.record.required.find? (· ∉ fieldsMet e) = none := by
    simp [Emission.record, fieldsMet]
  show (Emission.record.readMap ⟨.text, some (keyDepth + 1), path⟩
    ((.string (some "index"), .numeral (Json.Number.literal Number.layout (.int index))) ::
      Json.writtenMembers (fun n => .numeral (n.literal Number.layout)) _)).toOption = _
  have henter : Context.enter ⟨.text, some (keyDepth + 1), path⟩ =
      .ok ⟨.text, some keyDepth, path⟩ := rfl
  rw [Record.readMap_complete henter, toOption_map, hread, Option.map_map]
  · rfl
  · intro met s hmet
    rw [hmet] at hread
    obtain ⟨r, -, hr⟩ := Option.map_eq_some_iff.mp hread.symm
    obtain ⟨rfl, -⟩ := Prod.mk.inj hr
    exact hrequired

/-! ## All records -/

theorem items_toOption {α : Type} {d : Decoder α} {depth : Nat} {f : Json → Option α}
    {vs : List Json} (h : ∀ v ∈ vs, ∀ path, (d ⟨.text, some depth, path⟩
      (Json.nodeIn Number.layout v)).toOption = f v) (path : Path) (i : Nat) :
    (Decoder.items d ⟨.text, some depth, path⟩ i
      (Json.writtenItems (fun n => .numeral (n.literal Number.layout)) vs)).toOption =
        vs.mapM f := by
  induction vs generalizing i with
  | nil => rfl
  | cons v vs ih =>
    simp only [Json.writtenItems, Decoder.items, toOption_bind, List.mapM_cons]
    have hv := h v (List.mem_cons_self ..) (.item i :: path)
    have hvs := ih (fun v hv => h v (List.mem_cons_of_mem _ hv)) (i + 1)
    rw [hvs, Context.item, hv]
    rfl

/-- The numbers of a key and a value are finite. -/
def Emitted.Finite (e : Emitted) : Prop :=
  (∀ j, e.key = some j → j.Finite) ∧ ∀ j, e.value = some j → j.Finite

theorem Emitted.Finite.record {e : Emitted} (h : e.Finite) (index : Int) :
    (e.record index).Finite := by
  obtain ⟨key, value⟩ := e
  obtain ⟨hkey, hvalue⟩ := h
  simp only [Emitted.record, Json.Finite, Json.EachNumber, Json.eachNumberOf_iff, List.mem_cons,
    List.mem_append, Option.mem_toList, Option.map_eq_some_iff]
  rintro m (rfl | ⟨j, hj, rfl⟩ | ⟨j, hj, rfl⟩)
  · simp [Json.EachNumber, Json.Number.Finite]
  · exact hkey j hj
  · exact hvalue j hj

theorem writeRecord_finite {levels : Nat} {call : Caller} {a : Nat} {e : Emitted} {K K' : Heap}
    (h : writeRecord levels call a K = .ok (e, K')) : e.Finite := by
  obtain ⟨o, K1, -, h⟩ := Run.bind_eq_ok h
  obtain ⟨key, K2, hkey, h⟩ := Run.bind_eq_ok h
  obtain ⟨value, K3, hvalue, h⟩ := Run.bind_eq_ok h
  cases h
  refine ⟨?_, ?_⟩
  · rintro j rfl
    exact finite_serialize hkey
  · rintro j rfl
    exact finite_serialize hvalue

/-- what is emitted has finite numbers only -/
theorem yields_finite {m : Mapper} {d : Json} {es : List Emitted} (h : m.Yields d (some es))
    {e : Emitted} (he : e ∈ es) : e.Finite := by
  obtain ⟨fault, -, hes⟩ := h
  cases hrun : (m.run recordLevels (watcher fault) d) soleHeap with
  | error f =>
    rw [hrun] at hes
    cases hes
  | ok r =>
    obtain ⟨es', K'⟩ := r
    rw [hrun] at hes
    cases hes
    obtain ⟨v, K1, -, hrun⟩ := Run.bind_eq_ok hrun
    obtain ⟨o, K2, -, hrun⟩ := Run.bind_eq_ok hrun
    obtain ⟨a, -, K3, K4, hwrite⟩ := mem_mapM_run hrun he
    exact writeRecord_finite hwrite

/-- The emissions of documents that are numbered from a number on. -/
def readRecords : Nat → List (List Emitted) → Option (List Emission)
  | _, [] => some []
  | i, es :: rest => do
    let first ← es.mapM fun e => e.reread.map fun r => ⟨.int i, r.1, r.2⟩
    let others ← readRecords (i + 1) rest
    return first ++ others

theorem mapM_records {f : Json → Option Emission} {n : Nat}
    (hf : ∀ i < n, ∀ e, f (Emitted.record i e) = e.reread.map fun r => ⟨.int i, r.1, r.2⟩)
    (i : Nat) (ess : List (List Emitted)) (h : i + ess.length ≤ n) :
    (records i ess).mapM f = readRecords i ess := by
  induction ess generalizing i with
  | nil => rfl
  | cons es rest ih =>
    have hi : i < n := by
      simp only [List.length_cons] at h
      omega
    rw [records, List.mapM_append, List.mapM_map, readRecords]
    rw [ih (i + 1) (by simp only [List.length_cons] at h; omega)]
    simp only [Function.comp_def, hf i hi]

theorem mem_records {v : Json} {i : Nat} {ess : List (List Emitted)} (h : v ∈ records i ess) :
    ∃ k < i + ess.length, ∃ es ∈ ess, ∃ e ∈ es, v = e.record k := by
  induction ess generalizing i with
  | nil => exact absurd h (by simp [records])
  | cons es rest ih =>
    rcases List.mem_append.mp h with h | h
    · obtain ⟨e, he, rfl⟩ := List.mem_map.mp h
      exact ⟨i, by simp, es, List.mem_cons_self .., e, he, rfl⟩
    · obtain ⟨k, hk, es', hes', e, he, rfl⟩ := ih h
      refine ⟨k, ?_, es', List.mem_cons_of_mem _ hes', e, he, rfl⟩
      simp only [List.length_cons]
      omega

/-- the records are read from the text that the script gives -/
theorem readAll_records {ess : List (List Emitted)} (hfinite : ∀ es ∈ ess, ∀ e ∈ es, e.Finite)
    (hlen : ess.length ≤ Number.greatestExact) :
    (Emission.readAll (String.ofList
      ((Json.arr (records 0 ess)).compactChars Value.numberText))).toOption =
        readRecords 0 ess := by
  have hsource : Json.Source.ofText (String.ofList
      ((Json.arr (records 0 ess)).compactChars Value.numberText)) =
        ⟨Json.nodeIn Number.layout (.arr (records 0 ess)), true⟩ := by
    rw [Json.Source.ofText, String.toList_ofList, Json.numberText_eq_charsIn]
    refine Json.ofChars_charsIn Number.layout (.arr (records 0 ess)) ?_
    simp only [Json.Finite, Json.EachNumber, Json.eachNumberIn_iff]
    intro v hv
    obtain ⟨k, -, es, hes, e, he, rfl⟩ := mem_records hv
    exact (hfinite es hes e he).record k
  let f (v : Json) : Option Emission :=
    (Emission.record.decoder ⟨.text, some 126, []⟩ (Json.nodeIn Number.layout v)).toOption
  have hf : ∀ i < Number.greatestExact, ∀ e, f (Emitted.record i e) =
      e.reread.map fun r => ⟨.int i, r.1, r.2⟩ := fun i hi e => decode_record hi e []
  have hread : ∀ v ∈ records 0 ess, ∀ path, (Emission.record.decoder ⟨.text, some 126, path⟩
      (Json.nodeIn Number.layout v)).toOption = f v := by
    intro v hv path
    obtain ⟨k, hk, es, -, e, -, rfl⟩ := mem_records hv
    have hk' : k < Number.greatestExact := by omega
    exact (decode_record hk' e path).trans (hf k hk' e).symm
  simp only [Emission.readAll, Format.parseJson, hsource]
  show (Decoder.items Emission.record.decoder ⟨.text, some 126, []⟩ 0 (Json.writtenItems
    (fun n => .numeral (n.literal Number.layout)) (records 0 ess)) >>= fun a => pure a).toOption = _
  rw [bind_pure, items_toOption hread [] 0]
  exact mapM_records hf 0 ess (by omega)

/-! ## Rows -/

theorem str?_eq_some {j : Json} {t : String} : j.str? = some t ↔ j = .str t := by
  cases j <;> simp [Json.str?]

/-- The row of a document with a key and a value. -/
def rowOf (wantsDocs : Bool) (d : Json) (r : Json × Json) : Row :=
  { id := (d.get? "_id").bind Json.str?
    key := r.1
    value := r.2
    doc := if wantsDocs then some d else none }

/-- The rows of a document for which a call emits something, `none` if it has failed or something
that it emits cannot be read back. -/
def rowsOf (wantsDocs : Bool) (d : Json) (es : Option (List Emitted)) : Option (List Row) := do
  let es ← es
  let rs ← es.mapM Emitted.reread
  return rs.map (rowOf wantsDocs d)

/-- The answer that some rows make. -/
def envelope (rows : List Row) : RowEnvelope :=
  { totalRows := some (UInt64.ofNat rows.length), offset := some 0, rows }

/-- the emissions of the document with some number become rows of it -/
theorem filterMap_row {docs : List Json} {i : Nat} {d : Json} (hd : docs[i]? = some d)
    (wantsDocs : Bool) (rs : List (Json × Json)) :
    (rs.map fun r => (⟨.int i, r.1, r.2⟩ : Emission)).filterMap (Emission.row? docs wantsDocs) =
      rs.map (rowOf wantsDocs d) := by
  rw [List.filterMap_map, ← List.filterMap_eq_map]
  apply List.filterMap_congr
  intro r _
  simp [Emission.row?, Emission.position?, hd, rowOf]

theorem rows_readRecords (out : Json → Option (List Emitted)) (wantsDocs : Bool)
    (before docs : List Json) :
    ((docs.mapM out).bind (readRecords before.length)).map
        (List.filterMap (Emission.row? (before ++ docs) wantsDocs)) =
      (docs.mapM fun d => rowsOf wantsDocs d (out d)).map List.flatten := by
  -- on the documents, those before them only counted; the cases follow the order in which the
  -- call, the reading of its records and the other documents may fail
  induction docs generalizing before with
  | nil => rfl
  | cons d docs ih =>
    have hd : (before ++ d :: docs)[before.length]? = some d := by simp
    have hrest := ih (before ++ [d])
    simp only [List.length_append, List.length_singleton, List.append_assoc,
      List.singleton_append] at hrest
    rw [List.mapM_cons, List.mapM_cons, rowsOf]
    cases out d with
    | none => rfl
    | some es =>
      cases hes : es.mapM Emitted.reread with
      | none =>
        cases docs.mapM out with
        | none => simp [hes]
        | some ess => simp [hes, readRecords, mapM_map_some]
      | some rs =>
        cases hall : docs.mapM out with
        | none =>
          rw [hall] at hrest
          have hnone : docs.mapM (fun d => rowsOf wantsDocs d (out d)) = none := by
            simpa using hrest.symm
          simp [hes, hnone]
        | some ess =>
          rw [hall, Option.bind_some] at hrest
          have hfirst := filterMap_row hd wantsDocs rs
          cases hread : readRecords (before.length + 1) ess with
          | none =>
            rw [hread] at hrest
            have hnone : docs.mapM (fun d => rowsOf wantsDocs d (out d)) = none := by
              simpa using hrest.symm
            simp [hes, hnone, readRecords, mapM_map_some, hread]
          | some others =>
            rw [hread] at hrest
            obtain ⟨rss, hrss, hflat⟩ := Option.map_eq_some_iff.mp hrest.symm
            simp only [Option.bind_eq_bind, Option.bind_some, Option.pure_def, readRecords,
              mapM_map_some, hes, hread, hrss, Option.map_some, List.filterMap_append, hfirst,
              List.flatten_cons, hflat]

/-! ## Views -/

/-- The generated map function of a view is a single function expression on its own.  It uses no
free name but `emit`, called, and the constants `undefined`, `NaN` and `Infinity`. -/
structure Mapped (s : ViewSpec) (m : Mapper) : Prop where
  language : s.language = .javaScript
  parsed : ∃ src, s.mapFunction = .ok src ∧ Expr.parseSingle? src.toList = some m.expr
  closed : m.expr.closed [] = true

/-- a generated function ends with a brace on a line of its own -/
theorem frame_ends (condition key value : List Char) :
    ∃ cs, MapFunction.JavaScript.frame condition key value = cs ++ ['\n', '\x7d'] := by
  have hend : ");\n  \x7d\n\x7d".toList = ");\n  \x7d".toList ++ ['\n', '\x7d'] := by
    simp
  unfold MapFunction.JavaScript.frame
  rw [hend, ← List.append_assoc]
  exact ⟨_, rfl⟩

theorem source_ends {className : String} {o : ViewOptions} {src : List Char}
    (h : MapFunction.JavaScript.source className o = .ok src) :
    ∃ cs, src = cs ++ ['\n', '\x7d'] := by
  simp only [MapFunction.JavaScript.source] at h
  cases hvalue : MapFunction.JavaScript.emitValue o.emitValue with
  | error e =>
    rw [hvalue] at h
    cases h
  | ok value =>
    rw [hvalue] at h
    rw [← Except.ok.inj h]
    exact frame_ends ..

/-- The function that is generated for a class, a condition, a key and a value. -/
def mapperOf (className : String) (c : Option Expr) (k : Option Key) (v : Expr) : Mapper where
  parameters := ["doc"]
  body := MapFunction.JavaScript.bodyOf (MapFunction.JavaScript.testOf className c)
    (MapFunction.JavaScript.keyOf k) v

theorem closed_mapperOf (className : String) {c : Option Expr} (k : Option Key) {v : Expr}
    (hc : ∀ e, c = some e → e.closed ["doc"] = true) (hv : v.closed ["doc"] = true) :
    (mapperOf className c k v).expr.closed [] = true := by
  have htest := closed_testOf className hc
  have hkey := (harmless_keyOf k).closed
  simp [Mapper.expr, mapperOf, MapFunction.JavaScript.bodyOf, Expr.closed, Stmt.localNames,
    Stmt.allDeclared, Stmt.declared, Stmt.allFunctions, Stmt.functions, Stmt.allClosed, Stmt.closed,
    Expr.allClosed, Expr.isEmit, htest, hkey, hv]

theorem emissions_eq {s : ViewSpec} {src : String} (hl : s.language = .javaScript)
    (hsrc : s.mapFunction = .ok src) (docs : List Json) :
    s.emissions docs = match Script.run (source src.toList docs) with
      | .error _ => .error (.script s.name)
      | .ok (.text result) => (Emission.readAll result).mapError .emissions
      | .ok _ => .error (.noScriptResult s.name) := by
  simp only [ViewSpec.emissions, hl, hsrc]
  rfl

/-- Whether a script gives the text of some records. -/
def gives (ess : List (List Emitted)) : Except Fault Value → Bool
  | .ok (.text t) => t == String.ofList ((Json.arr (records 0 ess)).compactChars Value.numberText)
  | _ => false

theorem eq_of_gives {ess : List (List Emitted)} {r : Except Fault Value} (h : gives ess r = true) :
    r = .ok (scriptValue ess) := by
  match r, h with
  | .ok (.text t), h => rw [eq_of_beq h, scriptValue]

/-- the emissions of a view whose script gives the text of some records -/
theorem emissions_of_run {s : ViewSpec} {src : String} (hl : s.language = .javaScript)
    (hsrc : s.mapFunction = .ok src) {docs : List Json} {ess : List (List Emitted)}
    (hrun : Script.run (source src.toList docs) = .ok (scriptValue ess))
    (hfinite : ∀ es ∈ ess, ∀ e ∈ es, e.Finite) (hcount : ess.length ≤ Number.greatestExact) :
    (s.emissions docs).toOption = readRecords 0 ess := by
  rw [emissions_eq hl hsrc, hrun, ← readAll_records hfinite hcount, scriptValue, toOption_mapError]

namespace Mapped

variable {s : ViewSpec} {m : Mapper} {docs : List Json} {out : Json → Option (List Emitted)}

/-- the script of a view has its map function in it -/
theorem run_program (h : Mapped s m) (docs : List Json) : ∃ src, s.mapFunction = .ok src ∧
    Script.run (source src.toList docs) =
      (runAll (program (docsText docs) m.expr)).run' Realm.heap := by
  obtain ⟨src, hsrc, hparse⟩ := h.parsed
  have hjs : ∃ cs, MapFunction.JavaScript.source s.ownerClass s.view = .ok cs ∧
      src = String.ofList cs := by
    simp only [ViewSpec.mapFunction, h.language] at hsrc
    cases hcs : MapFunction.JavaScript.source s.ownerClass s.view with
    | error e =>
      rw [hcs] at hsrc
      cases hsrc
    | ok cs =>
      rw [hcs] at hsrc
      cases hsrc
      exact ⟨cs, rfl, rfl⟩
  obtain ⟨cs, hcs, rfl⟩ := hjs
  rw [String.toList_ofList] at hparse
  obtain ⟨body, rfl⟩ := source_ends hcs
  obtain ⟨ts, hts, hread⟩ := Option.bind_eq_some_iff.mp hparse
  have hscript := parse_source (Lexeme.Scanned.of_scan hts) (Parser.whole?_eq_some hread) docs
  refine ⟨_, hsrc, ?_⟩
  rw [String.toList_ofList, Script.run, hscript]

/-- the script of a view runs its map function on each document -/
theorem run_source (h : Mapped s m) (hdocs : Json.EachNumberIn Json.Number.Finite docs)
    (hlen : docs.length < Number.greatestExact) (hout : ∀ d ∈ docs, m.Yields d (out d)) :
    ∃ src, s.mapFunction = .ok src ∧ (Script.run (source src.toList docs)).toOption =
      (docs.mapM out).map scriptValue := by
  obtain ⟨src, hsrc, hrun⟩ := h.run_program docs
  have hclosed := h.closed
  have hyields : List.Forall₂ m.Yields docs (docs.map out) :=
    List.forall₂_map_right_iff.mpr (List.forall₂_same.mpr hout)
  refine ⟨src, hsrc, ?_⟩
  rw [hrun, show docs.mapM out = (docs.map out).mapM id by rw [List.mapM_map]; rfl]
  exact program_run (by simpa [Mapper.expr, Expr.closed] using hclosed) hdocs hlen hyields

/-- the answer of a view whose script gives the text of some records -/
theorem evaluate_of_gives (h : Mapped s m) {ess : List (List Emitted)} {es : List Emission}
    (hgives : gives ess ((runAll (program (docsText docs) m.expr)).run' Realm.heap) = true)
    (hfinite : ∀ es ∈ ess, ∀ e ∈ es, e.Finite) (hcount : ess.length ≤ Number.greatestExact)
    (hread : readRecords 0 ess = some es) :
    s.evaluate docs = .ok (rows docs s.query.wantsDocs es) := by
  obtain ⟨src, hsrc, hrun⟩ := h.run_program docs
  rw [eq_of_gives hgives] at hrun
  have hemissions : s.emissions docs = .ok es := by
    rw [ok_iff_toOption, ← hread]
    exact emissions_of_run h.language hsrc hrun hfinite hcount
  rw [ViewSpec.evaluate, hemissions]
  rfl

/-- a view whose condition and value are expressions on their own -/
theorem of_fragments {value : List Char} {c : Option Expr} {v : Expr}
    (hlanguage : s.language = .javaScript)
    (hemit : MapFunction.JavaScript.emitValue s.view.emitValue = .ok value)
    (hc : Option.Rel (fun text e => Expr.IsWhole text.toList e) s.view.conditions c)
    (hv : Expr.IsSingle value v) (hcclosed : ∀ e, c = some e → e.closed ["doc"] = true)
    (hvclosed : v.closed ["doc"] = true) :
    Mapped s (mapperOf s.ownerClass c s.view.key v) where
  language := hlanguage
  parsed := by
    have hsource : s.mapFunction = .ok (String.ofList (MapFunction.JavaScript.frame
        (MapFunction.JavaScript.filter s.ownerClass s.view.conditions)
        (MapFunction.JavaScript.key s.view.key) value)) := by
      simp only [ViewSpec.mapFunction, hlanguage, MapFunction.JavaScript.source, hemit]
      rfl
    refine ⟨_, hsource, ?_⟩
    rw [String.toList_ofList]
    exact (MapFunction.JavaScript.isSingle_frame s.view.key
      (MapFunction.JavaScript.isWhole_filter s.ownerClass hc) hv).parse
  closed := closed_mapperOf s.ownerClass s.view.key hcclosed hvclosed

/-- a call that fails fails the evaluation -/
theorem evaluate_script (h : Mapped s m) (hdocs : Json.EachNumberIn Json.Number.Finite docs)
    (hlen : docs.length < Number.greatestExact) (hout : ∀ d ∈ docs, m.Yields d (out d))
    (hnone : docs.mapM out = none) : s.evaluate docs = .error (.script s.name) := by
  obtain ⟨src, hsrc, hrun⟩ := h.run_source hdocs hlen hout
  rw [hnone] at hrun
  rw [ViewSpec.evaluate, emissions_eq h.language hsrc]
  cases hr : Script.run (source src.toList docs) with
  | ok v =>
    rw [hr] at hrun
    cases hrun
  | error e => rfl

/-- **The rows of a view over documents are the rows of the documents, one after the other.** -/
theorem evaluate_rows (h : Mapped s m) (hdocs : Json.EachNumberIn Json.Number.Finite docs)
    (hlen : docs.length < Number.greatestExact) (hout : ∀ d ∈ docs, m.Yields d (out d)) :
    (s.evaluate docs).toOption = (docs.mapM fun d => rowsOf s.query.wantsDocs d (out d)).map
      fun rss => envelope rss.flatten := by
  have hrows := rows_readRecords out s.query.wantsDocs [] docs
  simp only [List.nil_append, List.length_nil] at hrows
  rw [← Function.comp_def, ← Option.map_map, ← hrows]
  cases hall : docs.mapM out with
  | none =>
    rw [h.evaluate_script hdocs hlen hout hall]
    rfl
  | some ess =>
    obtain ⟨src, hsrc, hrun⟩ := h.run_source hdocs hlen hout
    rw [hall] at hrun
    have hresult : Script.run (source src.toList docs) = .ok (scriptValue ess) := by
      cases hr : Script.run (source src.toList docs) with
      | error e =>
        rw [hr] at hrun
        cases hrun
      | ok v =>
        rw [hr] at hrun
        rw [Option.some.inj hrun]
    have hfinite : ∀ es ∈ ess, ∀ e ∈ es, e.Finite := by
      intro es hes e he
      obtain ⟨d, hmem, hd⟩ := exists_of_forall₂ (mapM_some_iff.mp hall).flip hes
      exact yields_finite (hd ▸ hout d hmem) he
    have hcount : ess.length ≤ Number.greatestExact := by
      rw [← (mapM_some_iff.mp hall).length_eq]
      exact Nat.le_of_lt hlen
    rw [ViewSpec.evaluate, toOption_map, emissions_of_run h.language hsrc hresult hfinite hcount,
      Option.bind_some, Option.map_map]
    rfl

end Mapped

end ViewDesign.Evaluation
