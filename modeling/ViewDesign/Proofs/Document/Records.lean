import ViewDesign.Document.Format
import ViewDesign.Document.Record
import ViewDesign.Proofs.Entries
import ViewDesign.Proofs.Json.Indented
import ViewDesign.Proofs.Json.Rereading

/-!
# Records are read back from what is written

What a record writes is read back field by field: a field that is written is read to the value it
was written for, and one that is left out keeps the value it has in the blank record.

* `Json.Plain`              values that are read from their text as they are;
* `ReadsBack`               a decoder reads a value off a text, if it is not nested too deeply;
* `Field.Restores`          what reading a field back does to a record;
* `Record.readsBack`        a record whose fields are all restored is read back;
* `ReadsBack.parse`         the texts of a value that is read back.
-/

namespace ViewDesign

/-! ## Values -/

namespace Json

mutual

/-- A value whose numbers are integers of sixty-four bits and whose members are in ascending order,
at every level. -/
def Plain : Json → Prop
  | .num (.int i) => minInt ≤ i ∧ i ≤ maxInt
  | .num (.float _) => False
  | .arr items => PlainItems items
  | .obj members => Entries.Ascending members ∧ PlainMembers members
  | _ => True

/-- All of some elements are. -/
def PlainItems : List Json → Prop
  | [] => True
  | v :: rest => Plain v ∧ PlainItems rest

/-- The values of some members are. -/
def PlainMembers : List (String × Json) → Prop
  | [] => True
  | (_, v) :: rest => Plain v ∧ PlainMembers rest

end

/-- an integer of sixty-four bits is read as itself -/
theorem reread_int (l : Decimal.Layout) {i : Int} (hmin : minInt ≤ i) (hmax : i ≤ maxInt) :
    Number.reread l (.int i) = some (.num (.int i)) := by
  have hword : Numeral.maxWord = 18446744073709551615 := rfl
  unfold minInt at hmin
  unfold maxInt at hmax
  have hvalue : (Number.literal l (.int i)).value? = some (.int i) := by
    cases i with
    | ofNat n => exact value?_literal_nat l (by simp only [Int.ofNat_eq_natCast] at hmax; omega)
    | negSucc n =>
      have hdigits : Decimal.valueFrom 0 (Decimal.digitsOf (n + 1)) = n + 1 :=
        Decimal.valueOf_digitsOf (n + 1)
      have hcollect : Numeral.collect 0 (Decimal.digitsOf (n + 1)) = (n + 1, []) := by
        rw [Numeral.collect_of_le 0 _ (by rw [hdigits]; omega), hdigits]
      have hrange : 0 < n + 1 ∧ minInt ≤ -((n + 1 : Nat) : Int) := by
        unfold minInt
        omega
      simp only [Number.literal, Numeral.value?, Int.natAbs_negSucc, hcollect, Nat.succ_eq_add_one,
        Int.negSucc_lt_zero, decide_true, Bool.not_true, Bool.false_eq_true, if_false,
        if_pos hrange]
      rfl
  rw [Number.reread, hvalue]
  rfl

mutual

/-- a plain value is read from its text as it is -/
theorem reread_plain (l : Decimal.Layout) (v : Json) (h : v.Plain) (depth : Nat)
    (hdepth : v.nesting ≤ depth) : reread l depth v = some v := by
  cases v with
  | null => simp only [reread]
  | bool b => simp only [reread]
  | str s => simp only [reread]
  | num n =>
    cases n with
    | int i =>
      simp only [Plain] at h
      simp only [reread]
      exact reread_int l h.1 h.2
    | float x => simp only [Plain] at h
  | arr items =>
    simp only [Plain] at h
    rw [nesting] at hdepth
    obtain ⟨n, rfl⟩ : ∃ n, depth = n + 1 := ⟨depth - 1, by omega⟩
    simp only [reread, rereadItems_plain l items h n (by omega), Option.map_some]
  | obj members =>
    simp only [Plain] at h
    rw [nesting] at hdepth
    obtain ⟨n, rfl⟩ : ∃ n, depth = n + 1 := ⟨depth - 1, by omega⟩
    simp only [reread, rereadMembers_plain l members h.2 n (by omega), Option.map_some, object,
      Entries.ofList_of_ascending h.1]

theorem rereadItems_plain (l : Decimal.Layout) (vs : List Json) (h : PlainItems vs) (depth : Nat)
    (hdepth : nestingItems vs ≤ depth) : rereadItems l depth vs = some vs := by
  cases vs with
  | nil => simp only [rereadItems]
  | cons v vs =>
    simp only [PlainItems] at h
    rw [nestingItems] at hdepth
    simp only [rereadItems, reread_plain l v h.1 depth (by omega),
      rereadItems_plain l vs h.2 depth (by omega)]
    rfl

theorem rereadMembers_plain (l : Decimal.Layout) (ms : List (String × Json)) (h : PlainMembers ms)
    (depth : Nat) (hdepth : nestingMembers ms ≤ depth) : rereadMembers l depth ms = some ms := by
  cases ms with
  | nil => simp only [rereadMembers]
  | cons m ms =>
    obtain ⟨k, v⟩ := m
    simp only [PlainMembers] at h
    rw [nestingMembers] at hdepth
    simp only [rereadMembers, reread_plain l v h.1 depth (by omega),
      rereadMembers_plain l ms h.2 depth (by omega)]
    rfl

end

mutual

theorem finite_plain (v : Json) (h : v.Plain) : v.Finite := by
  cases v with
  | null => simp only [EachNumber]
  | bool b => simp only [EachNumber]
  | str s => simp only [EachNumber]
  | num n =>
    cases n with
    | int i => simp only [EachNumber, Number.Finite]
    | float x => simp only [Plain] at h
  | arr items =>
    simp only [Plain] at h
    simp only [EachNumber]
    exact finite_plainItems items h
  | obj members =>
    simp only [Plain] at h
    simp only [EachNumber]
    exact finite_plainMembers members h.2

theorem finite_plainItems (vs : List Json) (h : PlainItems vs) :
    EachNumberIn Number.Finite vs := by
  cases vs with
  | nil => simp only [EachNumberIn]
  | cons v vs =>
    simp only [PlainItems] at h
    exact ⟨finite_plain v h.1, finite_plainItems vs h.2⟩

theorem finite_plainMembers (ms : List (String × Json)) (h : PlainMembers ms) :
    EachNumberOf Number.Finite ms := by
  cases ms with
  | nil => simp only [EachNumberOf]
  | cons m ms =>
    obtain ⟨k, v⟩ := m
    simp only [PlainMembers] at h
    exact ⟨finite_plain v h.1, finite_plainMembers ms h.2⟩

end

/-- The tree of the text of a value. -/
abbrev tree (v : Json) : Node := nodeIn floatLayout v

theorem writtenMembers_eq_map (node : Number → Node) (ms : List (String × Json)) :
    writtenMembers node ms = ms.map fun m => (.string (some m.1), written node m.2) := by
  induction ms with
  | nil => rfl
  | cons m ms ih =>
    rw [List.map_cons, ← ih]
    rfl

theorem ofText_compact {v : Json} (h : v.Finite) : Source.ofText v.compact = ⟨v.tree, true⟩ := by
  rw [Source.ofText, compact, String.toList_ofList, text_eq_charsIn]
  exact ofChars_charsIn floatLayout v h

theorem ofText_pretty {v : Json} (h : v.Finite) : Source.ofText v.pretty = ⟨v.tree, true⟩ := by
  rw [Source.ofText, pretty, String.toList_ofList]
  refine ofChars_pretty v (EachNumber.imp (fun n hn => ?_) v h)
  rw [text_eq_charsIn]
  exact Number.spelled floatLayout hn

end Json

theorem Node.ofMembers_eq_map (ms : List (String × Json)) :
    ofMembers ms = ms.map fun m => (.string (some m.1), ofJson m.2) := by
  induction ms with
  | nil => rfl
  | cons m ms ih =>
    rw [List.map_cons, ← ih]
    rfl

/-! ## Decoders -/

/-- A decoder reads a result off the text of a value, unless there are not enough levels left. -/
structure ReadsBack {α : Type} (d : Decoder α) (v : Json) (a : α) : Prop where
  finite : v.Finite
  reads : ∀ depth path, v.nesting ≤ depth → d ⟨.text, some depth, path⟩ v.tree = .ok a

namespace ReadsBack

variable {α β : Type} {d : Decoder α} {v : Json} {a : α}

/-- both texts of the value are read -/
theorem parse (h : ReadsBack d v a) (hdepth : v.nesting ≤ 127) :
    Format.parse .json d v.compact = .ok a ∧ Format.parse .json d v.pretty = .ok a := by
  have hread : d (.root .text) v.tree = .ok a := h.reads 127 [] hdepth
  simp only [Format.parse, Format.parseJson, Json.ofText_compact h.finite,
    Json.ofText_pretty h.finite, hread]
  exact ⟨rfl, rfl⟩

theorem map (h : ReadsBack d v a) (f : α → β) : ReadsBack (d.map f) v (f a) := by
  refine ⟨h.finite, fun depth path hdepth => ?_⟩
  rw [Decoder.map, h.reads depth path hdepth]
  rfl

/-- a value that is not null is not absent -/
theorem optional (h : ReadsBack d v a) (hv : v ≠ .null) : ReadsBack d.optional v (some a) := by
  refine ⟨h.finite, fun depth path hdepth => ?_⟩
  have hread := h.reads depth path hdepth
  cases v with
  | null => exact absurd rfl hv
  | bool b => simp only [Json.tree, Json.written, Decoder.optional] at hread ⊢; rw [hread]; rfl
  | num n => simp only [Json.tree, Json.written, Decoder.optional] at hread ⊢; rw [hread]; rfl
  | str s => simp only [Json.tree, Json.written, Decoder.optional] at hread ⊢; rw [hread]; rfl
  | arr items => simp only [Json.tree, Json.written, Decoder.optional] at hread ⊢; rw [hread]; rfl
  | obj ms => simp only [Json.tree, Json.written, Decoder.optional] at hread ⊢; rw [hread]; rfl

theorem text (s : String) : ReadsBack Decoder.text (.str s) s :=
  ⟨by simp only [Json.EachNumber], fun _ _ _ => rfl⟩

theorem flag (b : Bool) : ReadsBack Decoder.flag (.bool b) b :=
  ⟨by simp only [Json.EachNumber], fun _ _ _ => rfl⟩

theorem count (n : UInt64) : ReadsBack Decoder.count (.ofInt n.toNat) n := by
  refine ⟨by simp only [Json.ofInt, Json.EachNumber, Json.Number.Finite], fun depth path _ => ?_⟩
  have hle : n.toNat ≤ Numeral.maxWord := by
    have hlt := n.toNat_lt
    unfold Numeral.maxWord
    omega
  have hfound : Decoder.found ⟨.text, some depth, path⟩ (Json.ofInt n.toNat).tree =
      .ok (.int n.toNat) := by
    simp only [Json.ofInt, Json.tree, Json.written, Decoder.found, Json.value?_literal_nat _ hle]
  simp only [Decoder.count, hfound, bind, Except.bind, Int.natCast_nonneg, if_true,
    Int.toNat_natCast, UInt64.ofNat_toNat]

theorem free (h : v.Plain) : ReadsBack Decoder.free v v := by
  refine ⟨Json.finite_plain v h, fun depth path hdepth => ?_⟩
  have hread := Json.freeNode_written (l := Json.floatLayout) v depth path
  rw [Json.reread_plain Json.floatLayout v h depth hdepth] at hread
  cases hnode : Decoder.freeNode ⟨.text, some depth, path⟩ v.tree with
  | error e =>
    rw [hnode] at hread
    cases hread
  | ok w =>
    rw [hnode] at hread
    rw [Decoder.free, hnode, Option.some.inj hread]

theorem choice {choices : List (String × α)} {name : String} (h : choices.lookup name = some a) :
    ReadsBack (Decoder.choice choices) (.str name) a := by
  refine ⟨by simp only [Json.EachNumber], fun depth path _ => ?_⟩
  simp only [Json.tree, Json.written, Decoder.choice, Decoder.chosen, h]

/-- elements are read one after the other -/
theorem list {vs : List Json} {as : List α} (h : List.Forall₂ (ReadsBack d) vs as) :
    ReadsBack (Decoder.list d) (.arr vs) as := by
  refine ⟨?_, fun depth path hdepth => ?_⟩
  · simp only [Json.EachNumber]
    induction h with
    | nil => simp only [Json.EachNumberIn]
    | cons hv _ ih => exact ⟨hv.finite, ih⟩
  · rw [Json.nesting] at hdepth
    obtain ⟨n, rfl⟩ : ∃ n, depth = n + 1 := ⟨depth - 1, by omega⟩
    have hitems : ∀ (i : Nat), Decoder.items d ⟨.text, some n, path⟩ i
        (Json.writtenItems (fun n => .numeral (n.literal Json.floatLayout)) vs) = .ok as := by
      have hn : Json.nestingItems vs ≤ n := by omega
      clear hdepth
      induction h with
      | nil => exact fun _ => rfl
      | @cons v a vs as hv _ ih =>
        intro i
        rw [Json.nestingItems] at hn
        have hfirst : d (Context.item ⟨.text, some n, path⟩ i) v.tree = .ok a :=
          hv.reads n (.item i :: path) (by omega)
        simp only [Json.writtenItems, Decoder.items, hfirst, ih (by omega) (i + 1)]
        rfl
    exact hitems 0

theorem list_map {encode : α → Json} {as : List α} (h : ∀ a ∈ as, ReadsBack d (encode a) a) :
    ReadsBack (Decoder.list d) (.arr (as.map encode)) as := by
  refine list ?_
  induction as with
  | nil => exact .nil
  | cons a as ih =>
    rw [List.forall_mem_cons] at h
    exact .cons h.1 (ih h.2)

end ReadsBack

/-! ## Fields -/

namespace Field

variable {σ α : Type} {name : String} {d : Decoder α} {encode : α → Json} {s t : σ}

/-- Reading what a field writes for the record `s` makes the record `t` the record `u`; `reads` says
what it is for a value to be read. -/
def Restores (reads : Decoder (σ → σ) → Json → (σ → σ) → Prop) (f : Field σ) (s t u : σ) : Prop :=
  match f.write s with
  | none => t = u
  | some v => ∃ change, reads f.read v change ∧ change t = u

theorem restores_optional {get : σ → Option α} {set : Option α → σ → σ}
    (hnone : get s = none → set none t = t)
    (hsome : ∀ a, get s = some a → ReadsBack d (encode a) a ∧ encode a ≠ .null) :
    (Field.optional name d encode get set).Restores ReadsBack s t (set (get s) t) := by
  simp only [Restores, Field.optional]
  cases ha : get s with
  | none => exact (hnone ha).symm
  | some a =>
    obtain ⟨hread, hne⟩ := hsome a ha
    exact ⟨set (some a), (hread.optional hne).map set, rfl⟩

theorem restores_always {get : σ → α} {set : α → σ → σ} (h : ReadsBack d (encode (get s)) (get s)) :
    (Field.always name d encode get set).Restores ReadsBack s t (set (get s) t) :=
  ⟨set (get s), h.map set, rfl⟩

/-- Reading several fields, one after the other. -/
inductive AllRestore (reads : Decoder (σ → σ) → Json → (σ → σ) → Prop) (s : σ) :
    List (Field σ) → σ → σ → Prop
  | nil {t : σ} : AllRestore reads s [] t t
  | cons {f : Field σ} {fs : List (Field σ)} {t u w : σ} (first : f.Restores reads s t u)
      (rest : AllRestore reads s fs u w) : AllRestore reads s (f :: fs) t w

end Field

/-! ## Records -/

namespace Record

variable {σ : Type} {r : Record σ} {s t u : σ}

theorem readMembers_field {ctx : Context} {k : String} {node : Node} {rest : List (Node × Node)}
    {seen : List String} {field : Field σ} (hfield : r.fields.find? (·.name = k) = some field)
    (hseen : k ∉ seen) :
    r.readMembers ctx seen s ((.string (some k), node) :: rest) =
      (field.read (ctx.member k) node >>= fun change =>
        r.readMembers ctx (k :: seen) (change s) rest) := by
  have hname : ∀ {α : Type} (f : String → Except Refusal α), (Except.ok k >>= f) = f k :=
    fun _ => rfl
  simp only [Record.readMembers, Decoder.name, hname, hfield, hseen, if_false]

theorem find?_of_nodup {fs : List (Field σ)} (hnames : (fs.map Field.name).Nodup) {f : Field σ}
    (hf : f ∈ fs) : fs.find? (·.name = f.name) = some f := by
  induction fs with
  | nil => cases hf
  | cons g fs ih =>
    rw [List.map_cons, List.nodup_cons] at hnames
    rcases List.mem_cons.mp hf with rfl | hf
    · simp
    · have hne : g.name ≠ f.name := by
        intro h
        exact hnames.1 (h ▸ List.mem_map_of_mem hf)
      rw [List.find?_cons_of_neg (by simpa using hne), ih hnames.2 hf]

theorem writeMembers_cons (f : Field σ) (fs : List (Field σ)) (s : σ) :
    writeMembers (f :: fs) s =
      ((f.write s).map fun v => (f.name, v)).toList ++ writeMembers fs s := by
  simp only [writeMembers, List.filterMap_cons]
  cases f.write s <;> rfl

/-- members are written in the order of the fields -/
theorem names_writeMembers (fs : List (Field σ)) (s : σ) :
    ((writeMembers fs s).map Prod.fst).Sublist (fs.map Field.name) := by
  induction fs with
  | nil => exact .slnil
  | cons f fs ih =>
    rw [writeMembers_cons, List.map_append, List.map_cons]
    cases f.write s with
    | none => exact ih.cons f.name
    | some v => exact ih.cons_cons f.name

theorem mem_writeMembers {fs : List (Field σ)} {f : Field σ} (hf : f ∈ fs) {v : Json}
    (hv : f.write s = some v) : (f.name, v) ∈ writeMembers fs s :=
  List.mem_filterMap.mpr ⟨f, hf, by rw [hv]; rfl⟩

/-- The members of some fields are read, if none of them has been met. -/
theorem readMembers_restore {reads : Decoder (σ → σ) → Json → (σ → σ) → Prop} {ctx : Context}
    {node : Json → Node} {fs : List (Field σ)} (h : Field.AllRestore reads s fs t u)
    (hfs : ∀ f ∈ fs, r.fields.find? (·.name = f.name) = some f)
    (hreads : ∀ f ∈ fs, ∀ v change, f.write s = some v → reads f.read v change →
      f.read (ctx.member f.name) (node v) = .ok change)
    (hnames : (fs.map Field.name).Nodup) {seen : List String} (hseen : ∀ f ∈ fs, f.name ∉ seen) :
    ∃ met, r.readMembers ctx seen t
        ((writeMembers fs s).map fun m => (.string (some m.1), node m.2)) = .ok (met, u) ∧
      (∀ k ∈ seen, k ∈ met) ∧ ∀ f ∈ fs, (f.write s).isSome = true → f.name ∈ met := by
  -- on the fields: one that is not written leaves its default, one that is written is met once
  induction h generalizing seen with
  | nil => exact ⟨seen, rfl, fun _ hk => hk, fun _ hf => nomatch hf⟩
  | @cons f fs t u w first _ ih =>
    rw [List.forall_mem_cons] at hfs hreads hseen
    rw [List.map_cons, List.nodup_cons] at hnames
    rw [writeMembers_cons]
    unfold Field.Restores at first
    cases hwrite : f.write s with
    | none =>
      rw [hwrite] at first
      dsimp only at first
      subst first
      obtain ⟨met, hread, hold, hnew⟩ := ih hfs.2 hreads.2 hnames.2 hseen.2
      refine ⟨met, hread, hold, ?_⟩
      rw [List.forall_mem_cons]
      exact ⟨fun h => absurd h (by simp [hwrite]), hnew⟩
    | some v =>
      rw [hwrite] at first
      obtain ⟨change, hchange, rfl⟩ := first
      have hmet : ∀ g ∈ fs, g.name ∉ f.name :: seen := by
        intro g hg hmem
        rcases List.mem_cons.mp hmem with heq | hmem
        · exact hnames.1 (heq ▸ List.mem_map_of_mem hg)
        · exact hseen.2 g hg hmem
      obtain ⟨met, hread, hold, hnew⟩ := ih hfs.2 hreads.2 hnames.2 hmet
      refine ⟨met, ?_, fun k hk => hold k (List.mem_cons_of_mem _ hk), ?_⟩
      · rw [Option.map_some, Option.toList_some, List.singleton_append, List.map_cons,
          readMembers_field hfs.1 hseen.1]
        show (f.read (ctx.member f.name) (node v) >>= fun change =>
          r.readMembers _ _ (change t) _) = _
        rw [hreads.1 v change hwrite hchange]
        exact hread
      · rw [List.forall_mem_cons]
        exact ⟨fun _ => hold f.name (List.mem_cons_self ..), hnew⟩

theorem finite_writeMembers {fs : List (Field σ)} (h : Field.AllRestore ReadsBack s fs t u) :
    Json.EachNumberOf Json.Number.Finite (writeMembers fs s) := by
  induction h with
  | nil => simp only [writeMembers, List.filterMap_nil, Json.EachNumberOf]
  | @cons f fs t u w first _ ih =>
    rw [writeMembers_cons]
    unfold Field.Restores at first
    cases hwrite : f.write s with
    | none => exact ih
    | some v =>
      rw [hwrite] at first
      obtain ⟨change, hback, -⟩ := first
      exact ⟨hback.finite, ih⟩

/-- a map in which no field is missing is read member by member -/
theorem readMap_complete {ctx inner : Context} {members : List (Node × Node)}
    (henter : ctx.enter = .ok inner) (hall : ∀ met s, r.readMembers inner [] r.blank members =
      .ok (met, s) → r.required.find? (· ∉ met) = none) :
    r.readMap ctx members = (r.readMembers inner [] r.blank members).map Prod.snd := by
  unfold readMap
  rw [henter]
  cases hread : r.readMembers inner [] r.blank members with
  | error e => simp only [bind, Except.bind, hread, Except.map]
  | ok p => simp only [bind, Except.bind, hread, hall p.1 p.2 hread, Except.map, pure, Except.pure]

/-- **A record is read back from its text** if each of its fields is, and none that may not be
missing is left out. -/
theorem readsBack (hnames : r.names.Nodup)
    (hrequired : ∀ k ∈ r.required, ∃ f ∈ r.fields, f.name = k ∧ (f.write s).isSome = true)
    (h : Field.AllRestore ReadsBack s r.fields r.blank s) : ReadsBack r.decoder (r.encode s) s := by
  refine ⟨?_, fun depth path hdepth => ?_⟩
  · simp only [encode, Json.EachNumber]
    exact finite_writeMembers h
  · rw [encode, Json.nesting] at hdepth
    obtain ⟨n, rfl⟩ : ∃ n, depth = n + 1 := ⟨depth - 1, by omega⟩
    have hreads : ∀ f ∈ r.fields, ∀ v change, f.write s = some v → ReadsBack f.read v change →
        f.read (Context.member ⟨.text, some n, path⟩ f.name) v.tree = .ok change := by
      intro f hf v change hv hread
      have hle := Json.nesting_member (mem_writeMembers hf hv)
      exact hread.reads n (.member f.name :: path) (by omega)
    have hseen : ∀ f ∈ r.fields, f.name ∉ ([] : List String) := fun _ _ => List.not_mem_nil
    obtain ⟨met, hread, -, hmet⟩ :=
      readMembers_restore h (fun _ => find?_of_nodup hnames) hreads hnames hseen
    rw [← Json.writtenMembers_eq_map] at hread
    have hall : r.required.find? (· ∉ met) = none := by
      rw [List.find?_eq_none]
      intro k hk
      obtain ⟨f, hf, rfl, hwrite⟩ := hrequired k hk
      simpa using hmet f hf hwrite
    show r.readMap ⟨.text, some (n + 1), path⟩ _ = _
    rw [readMap_complete rfl, hread]
    · rfl
    · intro met' s' hread'
      rw [hread] at hread'
      obtain ⟨rfl, -⟩ := Prod.mk.inj (Except.ok.inj hread')
      exact hall

end Record

/-! ## Maps -/

/-- a map from names is read back entry by entry -/
theorem ReadsBack.names {α : Type} {d : Decoder α} {encode : α → Json} {m : NameMap α}
    (h : ∀ e ∈ m.entries, ReadsBack d (encode e.2) e.2) :
    ReadsBack (Decoder.names d) (.obj (m.entries.map fun e => (e.1, encode e.2))) m := by
  refine ⟨?_, fun depth path hdepth => ?_⟩
  · simp only [Json.EachNumber, Json.eachNumberOf_iff, List.mem_map]
    rintro _ ⟨e, he, rfl⟩
    exact (h e he).finite
  · rw [Json.nesting] at hdepth
    obtain ⟨n, rfl⟩ : ∃ n, depth = n + 1 := ⟨depth - 1, by omega⟩
    have hentries : ∀ (es : List (String × α)) (done : NameMap α),
        (∀ e ∈ es, ReadsBack d (encode e.2) e.2) →
        Json.nestingMembers (es.map fun e => (e.1, encode e.2)) ≤ n →
        Decoder.entries d ⟨.text, some n, path⟩ done
          (Json.writtenMembers (fun n => .numeral (n.literal Json.floatLayout))
            (es.map fun e => (e.1, encode e.2))) =
              .ok (es.foldl (fun done e => done.insert e.1 e.2) done) := by
      intro es
      induction es with
      | nil => exact fun _ _ _ => rfl
      | cons e es ih =>
        intro done hes hn
        rw [List.forall_mem_cons] at hes
        rw [List.map_cons, Json.nestingMembers] at hn
        have hvalue : d (Context.member ⟨.text, some n, path⟩ e.1) (encode e.2).tree = .ok e.2 :=
          hes.1.reads n (.member e.1 :: path) (by omega)
        have hrest := ih (done.insert e.1 e.2) hes.2 (by omega)
        rw [List.map_cons, Json.writtenMembers]
        show (d (Context.member ⟨.text, some n, path⟩ e.1) (encode e.2).tree >>= fun a =>
          Decoder.entries d ⟨.text, some n, path⟩ (done.insert e.1 a) _) = _
        rw [hvalue]
        exact hrest
    have hall := hentries m.entries .empty h (by omega)
    show Decoder.entries d ⟨.text, some n, path⟩ .empty _ = _
    rw [hall]
    obtain ⟨entries, ascending⟩ := m
    have hfold := NameMap.foldl_insert ⟨entries, ascending⟩
    congr 1
    cases hm : (entries.foldl (fun done e => done.insert e.1 e.2) (NameMap.empty : NameMap α)) with
    | mk es hes =>
      rw [hm] at hfold
      dsimp only at hfold
      subst hfold
      rfl

end ViewDesign
