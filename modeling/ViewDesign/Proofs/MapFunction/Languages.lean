import ViewDesign.Proofs.Erlang.Evaluation
import ViewDesign.Proofs.Evaluation.Meaning

/-!
# Both languages index the same rows

The two generators escape names, test the class and look up properties each in its own way.  For
the views that both of them can generate, the functions emit the same rows for every document.

* `emits_plain`            what the function in JavaScript emits;
* `languages_agree`        both functions emit the same.
-/

namespace ViewDesign

open Evaluation Script

/-- what a function with the default value emits for an object -/
theorem emits_plain (className : String) {k : Option Key} (hk : "__proto__" ∉ keyProperties k)
    {ms : List (String × Json)} (hms : Entries.Ascending ms) (hclass : (Json.obj ms).ClassIsText) :
    ∃ r, r.getD .null = throughScript (keyIn (.obj ms) k) ∧
      (mapperOf className none k (.number (.int 1))).emits (.obj ms) =
        some (if (Json.obj ms).isOf className then [⟨r, some (.num (.int 1))⟩] else []) := by
  have hlevels : (Json.obj ms).nesting < recordLevels + (Json.obj ms).nesting :=
    Nat.lt_add_of_pos_left (by decide)
  obtain ⟨r, hr, hkey⟩ := recordedOn_keyOf "key" hms hlevels k
  have hone := recordedOn_number (Nat.zero_lt_of_lt hlevels) "value" (.int 1) (.obj ms)
  have hgoes : Goes (recordLevels + (Json.obj ms).nesting)
      (mapperOf className none k (.number (.int 1))) (.obj ms) _ :=
    goes_mapperOf _ (by rintro _ ⟨⟩) (harmless_number _) k (.obj ms)
  refine ⟨r, (hkey hk).trans (throughScript_keyIn _ _).symm, ?_⟩
  rw [hgoes.emits, emittedFor_class _ (by simp) hclass hms, hr, hone]
  cases (Json.obj ms).isOf className <;> rfl

/-- a class that is not empty is tested alike in both languages -/
theorem hasClass_eq_isOf {className : String} (h : className ≠ "") (d : Json) :
    Erlang.hasClass className d = d.isOf className := by
  unfold Erlang.hasClass Json.isOf
  match d.get? "ruby_class" with
  | none => rfl
  | some .null => rfl
  | some (.bool _) => rfl
  | some (.num _) => rfl
  | some (.arr _) => rfl
  | some (.obj _) => rfl
  | some (.str t) =>
    by_cases ht : t = className
    · simp [ht, h]
    · simp [ht]

/-- what can be generated in Erlang, and how it is read -/
theorem mapFunction_erlang (s : ViewSpec) :
    ((∃ text, (s.withLanguage .erlang).mapFunction = .ok text) ↔
      s.view.conditions = none ∧ s.view.emitValue = .default) ∧
    ∀ text, (s.withLanguage .erlang).mapFunction = .ok text → Erlang.Expr.read? text.toList =
      some (MapFunction.Erlang.functionOf s.ownerClass s.view.key) := by
  have hsource : (s.withLanguage .erlang).mapFunction =
      (MapFunction.Erlang.source s.ownerClass s.view).map String.ofList := by
    obtain ⟨_, _, ⟨_, _, _, _⟩, _⟩ := s
    rfl
  rw [hsource, MapFunction.Erlang.source]
  cases hc : s.view.conditions with
  | some c =>
    refine ⟨⟨?_, ?_⟩, ?_⟩
    · rintro ⟨_, ⟨⟩⟩
    · rintro ⟨⟨⟩, _⟩
    · rintro _ ⟨⟩
  | none =>
    simp only [Option.isSome_none, Bool.false_eq_true, if_false, true_and]
    cases hd : s.view.emitValue.isDefault with
    | false =>
      have hne : s.view.emitValue ≠ .default := by
        intro h
        rw [h] at hd
        cases hd
      refine ⟨⟨?_, fun h => absurd h hne⟩, ?_⟩
      · rintro ⟨_, ⟨⟩⟩
      · rintro _ ⟨⟩
    | true =>
      have hdefault := EmitValue.isDefault_iff.mp hd
      refine ⟨⟨fun _ => hdefault, fun _ => ⟨_, rfl⟩⟩, fun text htext => ?_⟩
      rw [← Except.ok.inj htext, String.toList_ofList]
      exact MapFunction.Erlang.read_frame s.ownerClass s.view.key

/-- **Both languages index the same rows.**  A function in Erlang is generated exactly for the views
without conditions and with the default value, and then there is one in JavaScript too.  On every
object both emit nothing, or both emit one row with the same key and the value one.  A script writes
the key with its own numbers and with the members of objects in its own order; read back, it is the
same but for its numbers. -/
theorem languages_agree (s : ViewSpec) (hname : s.ownerClass ≠ "") :
    ((∃ text, (s.withLanguage .erlang).mapFunction = .ok text) ↔
      s.view.conditions = none ∧ s.view.emitValue = .default) ∧
    ∀ erlang, (s.withLanguage .erlang).mapFunction = .ok erlang →
      ∃ javaScript, (s.withLanguage .javaScript).mapFunction = .ok javaScript ∧
        ∃ (f : Erlang.Expr) (m : Mapper), Erlang.Expr.read? erlang.toList = some f ∧
          Expr.parseSingle? javaScript.toList = some m.expr ∧
          ("__proto__" ∉ keyProperties s.view.key →
            ∀ ms, Entries.Ascending ms → (Json.obj ms).ClassIsText →
              ((Json.obj ms).isOf s.ownerClass = false ∧
                f.emits? (.ofJson (.obj ms)) = some [] ∧ m.emits (.obj ms) = some []) ∨
              ((Json.obj ms).isOf s.ownerClass = true ∧
                f.emits? (.ofJson (.obj ms)) =
                  some [(.ofJson (keyIn (.obj ms) s.view.key), .integer 1)] ∧
                ∃ key, m.emits (.obj ms) = some [⟨key, some (.num (.int 1))⟩] ∧
                  key.getD .null = throughScript (keyIn (.obj ms) s.view.key) ∧
                  ((Json.obj ms).Ordered →
                    ∀ depth, (keyIn (.obj ms) s.view.key).nesting ≤ depth →
                      Json.reread Number.layout depth (key.getD .null) =
                        some (keyIn (.obj ms) s.view.key).converted))) := by
  obtain ⟨hgenerated, hread⟩ := mapFunction_erlang s
  refine ⟨hgenerated, fun erlang herlang => ?_⟩
  obtain ⟨hconditions, hvalue⟩ := hgenerated.mp ⟨erlang, herlang⟩
  have hmapped : Mapped (s.withLanguage .javaScript)
      (mapperOf s.ownerClass none s.view.key (.number (.int 1))) := by
    have hemit : MapFunction.JavaScript.emitValue s.view.emitValue = .ok ['1'] := by
      rw [hvalue]
      rfl
    refine Mapped.of_fragments rfl hemit ?_ MapFunction.JavaScript.isSingle_one
      (by rintro _ ⟨⟩) rfl
    show Option.Rel _ s.view.conditions none
    rw [hconditions]
    exact .none
  obtain ⟨javaScript, hgeneratedToo, hparse⟩ := hmapped.parsed
  refine ⟨javaScript, hgeneratedToo, _, _, hread erlang herlang, hparse, fun hk ms hms hclass => ?_⟩
  obtain ⟨key, hkey, hemits⟩ := emits_plain s.ownerClass hk hms hclass
  have hrows := Erlang.emits?_functionOf s.ownerClass s.view.key ms
  rw [hasClass_eq_isOf hname] at hrows
  cases hof : (Json.obj ms).isOf s.ownerClass with
  | false =>
    rw [hof] at hrows hemits
    exact Or.inl ⟨rfl, hrows, hemits⟩
  | true =>
    rw [hof] at hrows hemits
    refine Or.inr ⟨rfl, hrows, key, hemits, hkey, fun hordered depth hdepth => ?_⟩
    rw [hkey]
    exact reread_throughScript _ (Json.keyIn_obj hordered _).1 depth hdepth

/-- A view of a class with odd characters in its name, with a composite key. -/
def bilingual : ViewSpec where
  ownerClass := "O\"Brien\\'é"
  name := "by_x"
  view := { key := some (.composite ["x", "toString"]) }

/-- A document of that class. -/
def bilingualDoc : List (String × Json) :=
  [("ruby_class", .str "O\"Brien\\'é"), ("x", .str "ß")]

/-- the same row in both languages: the text as a binary and null for what is missing -/
theorem languages_agree_bilingual :
    ∃ (f : Erlang.Expr) (m : Mapper) (key : Option Json),
      f.emits? (.ofJson (.obj bilingualDoc)) =
        some [(.list [.binary [195, 159], .atom "null"], .integer 1)] ∧
      m.emits (.obj bilingualDoc) = some [⟨key, some (.num (.int 1))⟩] ∧
      key.getD .null = .arr [.str "ß", .null] ∧
      Json.reread Number.layout 1 (key.getD .null) = some (.arr [.str "ß", .null]) := by
  obtain ⟨hiff, hall⟩ := languages_agree bilingual (by decide)
  obtain ⟨erlang, herlang⟩ := hiff.mpr ⟨rfl, rfl⟩
  obtain ⟨-, -, f, m, -, -, hagree⟩ := hall erlang herlang
  have hnames : Entries.Ascending bilingualDoc :=
    Entries.ascending_of_names ["ruby_class", "x"] rfl (by decide)
  have hdoc := hagree (by decide) bilingualDoc hnames (by
    rintro j ⟨⟩
    exact ⟨_, rfl⟩)
  obtain ⟨hof, -⟩ | ⟨-, hf, key, hm, hkey, hread⟩ := hdoc
  · exact absurd hof (by decide)
  · exact ⟨f, m, key, hf, hm, hkey, hread ⟨hnames, trivial, trivial, trivial⟩ 1 (by decide)⟩

end ViewDesign
