import Mathlib.Data.List.Nodup
import ViewDesign.Proofs.Document.Records
import ViewDesign.View.Query

/-!
# The pairs of a query say what it asks for

The parameters that are set are written as pairs of a name and a text, ascending by name, and the
options can be told from the pairs.  Document ids and the choice of an index are passed on as they
are; all other values are JSON texts, so that a key that is a string is still told from one that is
a number.

* `Parameter`                     the value of a parameter that is set, raw or JSON;
* `QueryOptions.parameters`       all fifteen parameters of a query;
* `QueryOptions.Legible`          the JSON values can be read back;
* `QueryOptions.mem_pairs`        which pairs there are;
* `QueryOptions.pairs_faithful`   their order, their texts, and that they determine the options.
-/

namespace ViewDesign

/-! ## Parameters -/

/-- The value of a parameter. -/
inductive Parameter where
  /-- passed on as it is -/
  | raw (s : String)
  | json (v : Json)

namespace Parameter

/-- The text of a value. -/
def text : Parameter → String
  | .raw s => s
  | .json v => v.compact

/-- The JSON value that is written for a value. -/
def value : Parameter → Json
  | .raw s => .str s
  | .json v => v

end Parameter

namespace QueryOptions

/-- The parameters of a query by their names, `none` for those that are not set. -/
def parameters (o : QueryOptions) : List (String × Option Parameter) := [
  ("include_docs", o.includeDocs.map fun b => .json (.bool b)),
  ("key", o.key.map .json),
  ("keys", o.keys.map fun vs => .json (.arr vs)),
  ("startkey", o.startKey.map .json),
  ("startkey_docid", o.startKeyDocId.map .raw),
  ("endkey", o.endKey.map .json),
  ("endkey_docid", o.endKeyDocId.map .raw),
  ("limit", o.limit.map fun n => .json (.num (.int n.toNat))),
  ("skip", o.skip.map fun n => .json (.num (.int n.toNat))),
  ("descending", o.descending.map fun b => .json (.bool b)),
  ("group", o.group.map fun b => .json (.bool b)),
  ("group_level", o.groupLevel.map fun n => .json (.num (.int n.toNat))),
  ("reduce", o.reduce.map fun b => .json (.bool b)),
  ("inclusive_end", o.inclusiveEnd.map fun b => .json (.bool b)),
  ("stale", o.stale.map fun s => .raw s.name)]

/-- The names of the parameters. -/
def parameterNames : List String := ["include_docs", "key", "keys", "startkey", "startkey_docid",
  "endkey", "endkey_docid", "limit", "skip", "descending", "group", "group_level", "reduce",
  "inclusive_end", "stale"]

variable {o o' : QueryOptions} {name : String} {p : Parameter}

theorem names_parameters (o : QueryOptions) : o.parameters.map Prod.fst = parameterNames := rfl

theorem writeMembers_parameters (o : QueryOptions) :
    Record.writeMembers record.fields o =
      o.parameters.filterMap fun e => e.2.map fun p => (e.1, p.value) := by
  simp only [Record.writeMembers, record, parameters, Field.optional, List.filterMap_cons,
    List.filterMap_nil, Option.map_map]
  rfl

/-- exactly the document ids and the choice of an index are raw -/
theorem raw_iff (h : (name, some p) ∈ o.parameters) : (∃ s, p = .raw s) ↔ name ∈ rawNames := by
  simp only [parameters, List.mem_cons, Prod.mk.injEq, List.not_mem_nil, or_false] at h
  rcases h with h | h | h | h | h | h | h | h | h | h | h | h | h | h | h <;>
    obtain ⟨rfl, h⟩ := h <;> obtain ⟨a, -, rfl⟩ := Option.map_eq_some_iff.mp h.symm <;>
    simp [rawNames]

theorem pairText_value (h : (name, some p) ∈ o.parameters) : pairText name p.value = p.text := by
  have hraw := raw_iff h
  cases p with
  | raw s => simp only [Parameter.value, Parameter.text, pairText, if_pos (hraw.mp ⟨s, rfl⟩)]
  | json v =>
    have hname : name ∉ rawNames := fun hmem => by simpa using hraw.mpr hmem
    cases v <;> simp only [Parameter.value, Parameter.text, pairText, if_neg hname]

/-! ## Pairs -/

theorem nodup_writeMembers (o : QueryOptions) :
    ((Record.writeMembers record.fields o).map Prod.fst).Nodup :=
  (Record.names_writeMembers record.fields o).nodup (by decide)

theorem ascending_pairs (o : QueryOptions) : (o.pairs.map Prod.fst).Pairwise (· < ·) := by
  simp only [pairs, List.map_map]
  exact List.pairwise_map.mpr (Entries.ascending_ofList _)

/-- the pairs are those of the parameters that are set -/
theorem mem_pairs {text : String} :
    (name, text) ∈ o.pairs ↔ ∃ p, (name, some p) ∈ o.parameters ∧ p.text = text := by
  have hmem : ∀ v, (name, v) ∈ Entries.ofList (Record.writeMembers record.fields o) ↔
      ∃ p, (name, some p) ∈ o.parameters ∧ p.value = v := by
    intro v
    rw [(Entries.perm_ofList (nodup_writeMembers o)).mem_iff, writeMembers_parameters,
      List.mem_filterMap]
    constructor
    · rintro ⟨⟨k, q⟩, he, heq⟩
      obtain ⟨p, rfl, heq⟩ := Option.map_eq_some_iff.mp heq
      obtain ⟨rfl, hv⟩ := Prod.mk.inj heq
      exact ⟨p, he, hv⟩
    · rintro ⟨p, he, rfl⟩
      exact ⟨_, he, rfl⟩
  simp only [pairs, List.mem_map, Prod.exists, Prod.mk.injEq]
  constructor
  · rintro ⟨_, v, hv, rfl, rfl⟩
    obtain ⟨p, hp, rfl⟩ := (hmem v).mp hv
    exact ⟨p, hp, (pairText_value hp).symm⟩
  · rintro ⟨p, hp, rfl⟩
    exact ⟨name, p.value, (hmem _).mpr ⟨p, hp, rfl⟩, rfl, pairText_value hp⟩

/-! ## Reading the pairs -/

/-- The JSON values of the parameters that are set can be read back from their texts: their numbers
are integers, and they are at most 127 levels deep. -/
def Legible (o : QueryOptions) : Prop :=
  ∀ name v, (name, some (.json v)) ∈ o.parameters → v.Plain ∧ v.nesting ≤ 127

theorem parse_compact {v : Json} (h : v.Plain) (hdepth : v.nesting ≤ 127) :
    Format.parse .json Decoder.free v.compact = .ok v :=
  ((ReadsBack.free h).parse hdepth).1

/-- a parameter can be told from its text -/
theorem parameter_eq {q : Parameter} (ho : o.Legible) (ho' : o'.Legible)
    (hp : (name, some p) ∈ o.parameters) (hq : (name, some q) ∈ o'.parameters)
    (htext : p.text = q.text) : p = q := by
  have hkind : (∃ s, p = .raw s) ↔ ∃ s, q = .raw s := (raw_iff hp).trans (raw_iff hq).symm
  cases p with
  | raw s =>
    obtain ⟨t, rfl⟩ := hkind.mp ⟨s, rfl⟩
    exact congrArg Parameter.raw htext
  | json v =>
    cases q with
    | raw t => exact absurd (hkind.mpr ⟨t, rfl⟩) (by simp)
    | json w =>
      obtain ⟨hv, hvdepth⟩ := ho name v hp
      obtain ⟨hw, hwdepth⟩ := ho' name w hq
      have hread : Format.parse .json Decoder.free v.compact = .ok w := by
        rw [show v.compact = w.compact from htext]
        exact parse_compact hw hwdepth
      rw [parse_compact hv hvdepth] at hread
      exact congrArg Parameter.json (Except.ok.inj hread)

/-- what one query sets, another with the same pairs sets to the same value -/
theorem some_mem_parameters (ho : o.Legible) (ho' : o'.Legible) (hpairs : o.pairs = o'.pairs)
    (hp : (name, some p) ∈ o.parameters) : (name, some p) ∈ o'.parameters := by
  have hmem : (name, p.text) ∈ o'.pairs := hpairs ▸ mem_pairs.mpr ⟨p, hp, rfl⟩
  obtain ⟨q, hq, htext⟩ := mem_pairs.mp hmem
  rwa [parameter_eq ho ho' hp hq htext.symm]

theorem value_unique {a b : Option Parameter} (ha : (name, a) ∈ o.parameters)
    (hb : (name, b) ∈ o.parameters) : a = b := by
  have hnames : (o.parameters.map Prod.fst).Nodup := by
    rw [names_parameters]
    decide
  exact (Prod.mk.inj (List.inj_on_of_nodup_map hnames ha hb rfl)).2

theorem parameters_eq (ho : o.Legible) (ho' : o'.Legible) (hpairs : o.pairs = o'.pairs) :
    o.parameters = o'.parameters := by
  have hsame : ∀ name a a', (name, a) ∈ o.parameters → (name, a') ∈ o'.parameters → a = a' := by
    intro name a a' ha ha'
    cases a with
    | some p => exact value_unique (some_mem_parameters ho ho' hpairs ha) ha'
    | none =>
      cases a' with
      | none => rfl
      | some p => exact value_unique ha (some_mem_parameters ho' ho hpairs.symm ha')
  exact Entries.eq_of_names rfl hsame

/-- no two queries have the same parameters -/
theorem parameters_injective (h : o.parameters = o'.parameters) : o = o' := by
  have hflag : Function.Injective fun b : Bool => Parameter.json (.bool b) := by
    intro a b h
    simpa using h
  have hjson : Function.Injective Parameter.json := by
    intro a b h
    simpa using h
  have hraw : Function.Injective Parameter.raw := by
    intro a b h
    simpa using h
  have hcount : Function.Injective fun n : UInt64 => Parameter.json (.num (.int n.toNat)) := by
    intro a b h
    exact UInt64.toNat_inj.mp (by simpa using h)
  have hlist : Function.Injective fun vs => Parameter.json (.arr vs) := by
    intro a b h
    simpa using h
  have hstale : Function.Injective fun s : Stale => Parameter.raw s.name := by
    intro a b h
    cases a <;> cases b <;> simp [Stale.name] at h ⊢
  simp only [parameters, List.cons.injEq, Prod.mk.injEq, true_and, and_true] at h
  obtain ⟨h1, h2, h3, h4, h5, h6, h7, h8, h9, h10, h11, h12, h13, h14, h15⟩ := h
  obtain ⟨a1, a2, a3, a4, a5, a6, a7, a8, a9, a10, a11, a12, a13, a14, a15⟩ := o
  obtain ⟨b1, b2, b3, b4, b5, b6, b7, b8, b9, b10, b11, b12, b13, b14, b15⟩ := o'
  rw [QueryOptions.mk.injEq]
  exact ⟨Option.map_injective hflag h1, Option.map_injective hjson h2,
    Option.map_injective hlist h3, Option.map_injective hjson h4, Option.map_injective hraw h5,
    Option.map_injective hjson h6, Option.map_injective hraw h7, Option.map_injective hcount h8,
    Option.map_injective hcount h9, Option.map_injective hflag h10, Option.map_injective hflag h11,
    Option.map_injective hcount h12, Option.map_injective hflag h13, Option.map_injective hflag h14,
    Option.map_injective hstale h15⟩

/-- **The pairs of a query say what it asks for.**  Their names ascend strictly and are those of the
parameters that are set; each text is that of its parameter; a JSON text whose value has integers
only and is not nested too deeply reads back as this value; and queries all of whose values are such
have the same pairs only if they are the same. -/
theorem pairs_faithful :
    (∀ o : QueryOptions, (o.pairs.map Prod.fst).Pairwise (· < ·) ∧
      (∀ name text, (name, text) ∈ o.pairs ↔
        ∃ p, (name, some p) ∈ o.parameters ∧ p.text = text) ∧
      ∀ name v text, (name, text) ∈ o.pairs → (name, some (.json v)) ∈ o.parameters →
        v.Plain → v.nesting ≤ 127 → Format.parse .json Decoder.free text = .ok v) ∧
    ∀ o o' : QueryOptions, o.Legible → o'.Legible → o.pairs = o'.pairs → o = o' := by
  refine ⟨fun o => ⟨ascending_pairs o, fun _ _ => mem_pairs, ?_⟩, ?_⟩
  · intro name v text hpair hv hplain hdepth
    obtain ⟨p, hp, rfl⟩ := mem_pairs.mp hpair
    obtain rfl : p = .json v := Option.some.inj (value_unique hp hv)
    exact parse_compact hplain hdepth
  · exact fun o o' ho ho' hpairs => parameters_injective (parameters_eq ho ho' hpairs)

/-! ## A query -/

/-- A query with a null, an empty list, an object, and a document id that looks like a number. -/
def mixedQuery : QueryOptions where
  key := some .null
  keys := some []
  startKeyDocId := some "7"
  endKey := some (.obj [("a", .num (.int (-1))), ("é", .str "\"")])
  stale := some .updateAfter

theorem legible_mixedQuery : mixedQuery.Legible := by
  have horder : Entries.Ascending [("a", Json.num (.int (-1))), ("é", .str "\"")] :=
    Entries.ascending_of_names ["a", "é"] rfl (by decide)
  intro name v hv
  simp only [parameters, mixedQuery, Option.map_some, Option.map_none, List.mem_cons,
    Prod.mk.injEq, reduceCtorEq, Option.some.injEq, Parameter.json.injEq, and_false, false_or,
    List.not_mem_nil, or_false] at hv
  rcases hv with ⟨-, rfl⟩ | ⟨-, rfl⟩ | ⟨-, rfl⟩ <;>
    simp [Json.Plain, Json.PlainItems, Json.PlainMembers, Json.nesting, Json.nestingItems,
      Json.nestingMembers, Json.minInt, Json.maxInt, horder]

/-- its null is a parameter, its object reads back, and no other legible query has its pairs -/
theorem pairs_faithful_mixed :
    ("key", "null") ∈ mixedQuery.pairs ∧ ("startkey_docid", "7") ∈ mixedQuery.pairs ∧
      Format.parse .json Decoder.free "null" = .ok .null ∧
      ∀ o : QueryOptions, o.Legible → o.pairs = mixedQuery.pairs → o = mixedQuery := by
  obtain ⟨-, hmem, hread⟩ := pairs_faithful.1 mixedQuery
  have hkey : ("key", some (.json .null)) ∈ mixedQuery.parameters := by
    simp [parameters, mixedQuery]
  have hpair : ("key", "null") ∈ mixedQuery.pairs := (hmem _ _).mpr ⟨_, hkey, rfl⟩
  refine ⟨hpair, (hmem _ _).mpr ⟨.raw "7", by simp [parameters, mixedQuery], rfl⟩, ?_, ?_⟩
  · exact hread "key" .null "null" hpair hkey (by simp [Json.Plain]) (by decide)
  · exact fun o ho h => pairs_faithful.2 o mixedQuery ho legible_mixedQuery h

end QueryOptions

end ViewDesign
