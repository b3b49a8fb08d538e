import Mathlib.Data.List.TakeWhile
import ViewDesign.Proofs.Json.Parts

/-!
# Texts composed of texts

The text of an array is put together from the texts of its elements, and the text of an object from
those of its names and values; blanks may stand around each of them.  Its tree is put together from
their trees.

* `IsValue`                   the text of a value, `treeOf` its tree;
* `arrayText`, `objectText`   texts put together;
* `ofChars_arrayText`, `ofChars_objectText`, `ofChars_blanks`   how they are read.
-/

namespace ViewDesign.Json

/-- The tree of a text. -/
def treeOf (cs : List Char) : Node := (Source.ofChars cs).root

/-- A text is that of a value. -/
def IsValue (cs : List Char) : Prop := (Source.ofChars cs).ends = true

/-- A text is that of a string, as names are. -/
def IsName (cs : List Char) : Prop := IsValue cs ∧ ∃ s, treeOf cs = .string s

/-! ## Reading the text of a value -/

theorem allBlank_iff {bs : List Char} : AllBlank bs ↔ skipBlank bs = [] := by
  rw [AllBlank, skipBlank, List.dropWhile_eq_nil_iff]

theorem skipBlank_stop {bs : List Char} (h : AllBlank bs) {c : Char} (hc : isBlank c = false)
    (t : List Char) : skipBlank (bs ++ c :: t) = c :: t := by
  rw [skipBlank_append h, skipBlank_cons _ hc]

/-- the text of a value is read up to the blanks at its end, whatever follows -/
theorem IsValue.reads {cs : List Char} (h : IsValue cs) {t : List Char} (ht : Ends t) {fuel : Nat}
    (hfuel : 2 * cs.length + 1 ≤ fuel) :
    ∃ bs, AllBlank bs ∧ readValue fuel (cs ++ t) = (treeOf cs, some (bs ++ t)) := by
  unfold IsValue treeOf Source.ofChars at *
  cases hread : readValue (2 * cs.length + 1) cs with
  | mk v rest =>
    rw [hread] at h
    cases rest with
    | none => cases h
    | some bs =>
      refine ⟨bs, allBlank_iff.mpr (List.isEmpty_iff.mp h), ?_⟩
      exact (extends_all ht _).1 cs v bs hread fuel hfuel

theorem ofChars_of_reads {cs bs : List Char} {v : Node} (hbs : AllBlank bs)
    (h : readValue (2 * cs.length + 1) cs = (v, some bs)) : Source.ofChars cs = ⟨v, true⟩ := by
  rw [Source.ofChars, h]
  simp only [allBlank_iff.mp hbs]
  rfl

/-- the text of a value does not start like the end of an array or an object -/
theorem IsValue.head {cs : List Char} (h : IsValue cs) :
    ∃ c r, skipBlank cs = c :: r ∧ c ≠ ']' ∧ c ≠ '\x7d' := by
  obtain ⟨bs, -, hread⟩ := h.reads ends_nil (Nat.le_refl _)
  rw [List.append_nil, List.append_nil] at hread
  cases hskip : skipBlank cs with
  | nil =>
    rw [readValue, hskip] at hread
    exact absurd (Prod.mk.inj hread).2 (by rintro ⟨⟩)
  | cons c r =>
    have hnot : c ∉ ['"', '[', '\x7b', 'n', 't', 'f'] → (readNumeral (c :: r)).2 ≠ none := by
      intro hc
      rw [← @readValue_number (2 * cs.length) cs r c hskip hc, hread]
      rintro ⟨⟩
    refine ⟨c, r, rfl, ?_, ?_⟩
    · rintro rfl
      exact hnot (by decide) rfl
    · rintro rfl
      exact hnot (by decide) rfl

/-! ## Elements and members -/

/-- Texts with commas between them. -/
def joined : List (List Char) → List Char
  | [] => []
  | [cs] => cs
  | cs :: rest => cs ++ ',' :: joined rest

/-- The text of an array. -/
def arrayText (items : List (List Char)) : List Char := '[' :: (joined items ++ [']'])

/-- The text of a member. -/
def memberText (m : List Char × List Char) : List Char := m.1 ++ ':' :: m.2

/-- The text of an object. -/
def objectText (ms : List (List Char × List Char)) : List Char :=
  '\x7b' :: (joined (ms.map memberText) ++ ['\x7d'])

theorem joined_cons_cons (cs ds : List Char) (rest : List (List Char)) :
    joined (cs :: ds :: rest) = cs ++ ',' :: joined (ds :: rest) := rfl

theorem readItems_joined {vs : List (List Char)} (hne : vs ≠ []) (h : ∀ v ∈ vs, IsValue v)
    (t : List Char) {fuel : Nat} (hfuel : 2 * (joined vs).length + 2 ≤ fuel) :
    readItems fuel (joined vs ++ ']' :: t) = (vs.map treeOf, some t) := by
  induction vs generalizing fuel with
  | nil => exact absurd rfl hne
  | cons v vs ih =>
    obtain ⟨fuel, rfl⟩ : ∃ n, fuel = n + 1 := ⟨fuel - 1, by omega⟩
    rw [List.forall_mem_cons] at h
    cases vs with
    | nil =>
      rw [joined] at hfuel ⊢
      obtain ⟨bs, hbs, hread⟩ := h.1.reads (ends_cons (r := t) (c := ']') (by decide))
        (show 2 * v.length + 1 ≤ fuel by omega)
      rw [readItems, hread]
      simp only [skipBlank_stop hbs (show isBlank ']' = false by decide)]
      rfl
    | cons w vs =>
      rw [joined_cons_cons, List.length_append, List.length_cons] at hfuel
      obtain ⟨bs, hbs, hread⟩ := h.1.reads
        (ends_cons (r := joined (w :: vs) ++ ']' :: t) (c := ',') (by decide))
        (show 2 * v.length + 1 ≤ fuel by omega)
      have hrest := @ih (by simp) h.2 fuel (by omega)
      rw [joined_cons_cons, List.append_assoc, List.cons_append, readItems, hread]
      simp only [skipBlank_stop hbs (show isBlank ',' = false by decide), hrest]
      rfl

/-- a member is read up to the comma or the brace after it -/
theorem reads_member {m : List Char × List Char} (hname : IsName m.1) (hvalue : IsValue m.2)
    {c : Char} {t : List Char} (ht : Ends (c :: t)) (hc : isBlank c = false) {fuel : Nat}
    (hfuel : 2 * (memberText m).length ≤ fuel) :
    ∃ s bs bs', treeOf m.1 = .string s ∧
      readValue fuel (memberText m ++ c :: t) = (.string s, some (bs ++ ':' :: (m.2 ++ c :: t))) ∧
      skipBlank (bs ++ ':' :: (m.2 ++ c :: t)) = ':' :: (m.2 ++ c :: t) ∧
      readValue fuel (m.2 ++ c :: t) = (treeOf m.2, some (bs' ++ c :: t)) ∧
      skipBlank (bs' ++ c :: t) = c :: t := by
  obtain ⟨hname, s, hs⟩ := hname
  rw [memberText, List.length_append, List.length_cons] at hfuel
  obtain ⟨bs, hbs, hread⟩ := hname.reads (ends_cons (r := m.2 ++ c :: t) (c := ':') (by decide))
    (show 2 * m.1.length + 1 ≤ fuel by omega)
  obtain ⟨bs', hbs', hread'⟩ := hvalue.reads ht (show 2 * m.2.length + 1 ≤ fuel by omega)
  refine ⟨s, bs, bs', hs, ?_, skipBlank_stop hbs (by decide) _, hread', skipBlank_stop hbs' hc _⟩
  rw [← hs, memberText, List.append_assoc, List.cons_append, hread]

theorem readMembers_joined {ms : List (List Char × List Char)} (hne : ms ≠ [])
    (hnames : ∀ m ∈ ms, IsName m.1) (hvalues : ∀ m ∈ ms, IsValue m.2) (t : List Char) {fuel : Nat}
    (hfuel : 2 * (joined (ms.map memberText)).length + 2 ≤ fuel) :
    readMembers fuel (joined (ms.map memberText) ++ '\x7d' :: t) =
      (ms.map fun m => (treeOf m.1, treeOf m.2), some t) := by
  induction ms generalizing fuel with
  | nil => exact absurd rfl hne
  | cons m ms ih =>
    obtain ⟨fuel, rfl⟩ : ∃ n, fuel = n + 1 := ⟨fuel - 1, by omega⟩
    rw [List.forall_mem_cons] at hnames hvalues
    cases ms with
    | nil =>
      simp only [List.map_cons, List.map_nil, joined] at hfuel ⊢
      obtain ⟨s, bs, bs', hs, hname, hcolon, hvalue, hend⟩ := reads_member (t := t) hnames.1
        hvalues.1 (ends_cons (c := '\x7d') (by decide)) (by decide) (show _ ≤ fuel by omega)
      rw [readMembers, hname]
      simp only [hcolon, hvalue, hend, hs]
    | cons m' ms =>
      have hrest := @ih (by simp) hnames.2 hvalues.2 fuel
      simp only [List.map_cons, joined_cons_cons, List.length_append,
        List.length_cons] at hfuel hrest ⊢
      obtain ⟨s, bs, bs', hs, hname, hcolon, hvalue, hend⟩ := reads_member hnames.1 hvalues.1
        (ends_cons (c := ',') (r := joined (memberText m' :: ms.map memberText) ++ '\x7d' :: t)
          (by decide)) (by decide) (show _ ≤ fuel by omega)
      rw [List.append_assoc, List.cons_append, readMembers, hname]
      simp only [hcolon, hvalue, hend, hs, hrest (by omega)]

/-! ## Arrays, objects and blanks -/

theorem readItems_skipBlank (fuel : Nat) (cs : List Char) :
    readItems fuel (skipBlank cs) = readItems fuel cs := by
  have hblank : AllBlank (cs.takeWhile isBlank) := fun b hb => List.mem_takeWhile_imp hb
  have hsplit := readItems_blanks hblank fuel (skipBlank cs)
  rw [skipBlank, List.takeWhile_append_dropWhile] at hsplit
  exact hsplit.symm

theorem readMembers_skipBlank (fuel : Nat) (cs : List Char) :
    readMembers fuel (skipBlank cs) = readMembers fuel cs := by
  have hblank : AllBlank (cs.takeWhile isBlank) := fun b hb => List.mem_takeWhile_imp hb
  have hsplit := readMembers_blanks hblank fuel (skipBlank cs)
  rw [skipBlank, List.takeWhile_append_dropWhile] at hsplit
  exact hsplit.symm

theorem joined_head {cs ds : List Char} {rest : List (List Char)} {c : Char} {r : List Char}
    (h : skipBlank cs = c :: r) : ∃ r', skipBlank (joined (cs :: rest) ++ ds) = c :: r' := by
  cases rest with
  | nil => exact ⟨_, skipBlank_append_cons h ds⟩
  | cons d rest =>
    rw [joined_cons_cons, List.append_assoc]
    exact ⟨_, skipBlank_append_cons h _⟩

/-- **Arrays.** The tree of an array is put together from those of its elements. -/
theorem ofChars_arrayText {vs : List (List Char)} (h : ∀ v ∈ vs, IsValue v) :
    Source.ofChars (arrayText vs) = ⟨.sequence (vs.map treeOf), true⟩ := by
  cases vs with
  | nil => rfl
  | cons v vs =>
    obtain ⟨c, r, hskip, hc, -⟩ := (h v (List.mem_cons_self ..)).head
    obtain ⟨r', hskip'⟩ := @joined_head v [']'] vs c r hskip
    have hfuel : 2 * (joined (v :: vs)).length + 2 ≤ 2 * (arrayText (v :: vs)).length := by
      simp only [arrayText, List.length_cons, List.length_append]
      omega
    have hitems := readItems_joined (by simp) h [] hfuel
    have hopen : skipBlank (arrayText (v :: vs)) = '[' :: (joined (v :: vs) ++ [']']) :=
      skipBlank_cons _ (by decide)
    refine ofChars_of_reads (List.forall_mem_nil _) ?_
    rw [readValue_array hopen, bracketed_of_ne hskip' hc, ← hskip', readItems_skipBlank, hitems]

/-- **Objects.** So is the tree of an object from those of its names and values. -/
theorem ofChars_objectText {ms : List (List Char × List Char)} (hnames : ∀ m ∈ ms, IsName m.1)
    (hvalues : ∀ m ∈ ms, IsValue m.2) :
    Source.ofChars (objectText ms) =
      ⟨.mapping (ms.map fun m => (treeOf m.1, treeOf m.2)), true⟩ := by
  cases ms with
  | nil => rfl
  | cons m ms =>
    obtain ⟨c, r, hskip, -, hc⟩ := (hnames m (List.mem_cons_self ..)).1.head
    obtain ⟨r', hskip'⟩ : ∃ r',
        skipBlank (joined ((m :: ms).map memberText) ++ ['\x7d']) = c :: r' :=
      joined_head (skipBlank_append_cons hskip _)
    have hfuel : 2 * (joined ((m :: ms).map memberText)).length + 2 ≤
        2 * (objectText (m :: ms)).length := by
      simp only [objectText, List.length_cons, List.length_append]
      omega
    have hmembers := readMembers_joined (by simp) hnames hvalues [] hfuel
    have hopen : skipBlank (objectText (m :: ms)) =
        '\x7b' :: (joined ((m :: ms).map memberText) ++ ['\x7d']) := skipBlank_cons _ (by decide)
    refine ofChars_of_reads (List.forall_mem_nil _) ?_
    rw [readValue_object hopen, bracketed_of_ne hskip' hc, ← hskip', readMembers_skipBlank]
    rw [hmembers]

theorem ofChars_blanks {bs es cs : List Char} (hbs : AllBlank bs) (hes : AllBlank es)
    (h : IsValue cs) : Source.ofChars (bs ++ cs ++ es) = ⟨treeOf cs, true⟩ := by
  have hends : Ends es := by
    cases es with
    | nil => exact ends_nil
    | cons e es =>
      have he : isBlank e = true := hes e (List.mem_cons_self ..)
      simp only [isBlank, Bool.or_eq_true, beq_iff_eq, or_assoc] at he
      refine ends_cons ?_
      rcases he with rfl | rfl | rfl | rfl <;> decide
  have hfuel : 2 * cs.length + 1 ≤ 2 * (bs ++ cs ++ es).length + 1 := by
    simp only [List.length_append]
    omega
  obtain ⟨ds, hds, hread⟩ := h.reads hends hfuel
  refine @ofChars_of_reads _ (ds ++ es) _ ?_ ?_
  · intro b hb
    rcases List.mem_append.mp hb with hb | hb
    · exact hds b hb
    · exact hes b hb
  · rw [List.append_assoc, readValue_blanks hbs, ← List.append_assoc]
    rw [hread]

end ViewDesign.Json
