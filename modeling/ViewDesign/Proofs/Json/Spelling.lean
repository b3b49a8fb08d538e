import ViewDesign.Proofs.Decimal.Shortest
import ViewDesign.Proofs.Json.Literal
import ViewDesign.Script.JsonText

/-!
# Numbers in JSON texts

Whatever the layout, the text of a finite number is a number literal, so it reads as one node and a
whole text reads as the tree of its value.

* `Number.literal`      the literal that is written for a number;
* `Number.spelled`      its text reads as this literal;
* `Finite`              all numbers of a value are finite;
* `ofChars_charsIn`     the text of such a value reads as its tree.
-/

namespace ViewDesign.Json

/-! ## Finite numbers -/

/-- Whether a number is neither infinite nor not a number. -/
def Number.Finite : Number → Prop
  | .int _ => True
  | .float x => Binary64.isFinite x = true

/-- All numbers of a value are finite. -/
abbrev Finite (v : Json) : Prop := v.EachNumber Number.Finite

theorem isFinite_iff {x : Float} :
    Binary64.isFinite x = true ↔ ∃ negative s e, Binary64.ofFloat x = .finite negative s e := by
  unfold Binary64.isFinite
  cases Binary64.ofFloat x <;> simp

/-! ## Their literals -/

/-- The text of a number whose floats have a layout. -/
def Number.charsIn (l : Decimal.Layout) : Number → List Char
  | .int i => Decimal.ofInt i
  | .float x => (l.float x).toList

/-- The literal that is written for a number. -/
def Number.literal (l : Decimal.Layout) : Number → Numeral
  | .int i => ⟨decide (i < 0), Decimal.digitsOf i.natAbs, none, none⟩
  | .float x =>
    match Binary64.ofFloat x with
    | .finite negative s e =>
      l.literal (negative && (l.signedZero || s != 0)) (Decimal.shortest s e)
    | _ => ⟨false, ['0'], none, none⟩

theorem text_eq_charsIn : Number.text = Number.charsIn floatLayout := by
  funext n
  cases n <;> rfl

theorem numberText_eq_charsIn :
    Script.Value.numberText = Number.charsIn Script.Number.layout := by
  funext n
  cases n <;> rfl

theorem ofInt_eq (i : Int) :
    Decimal.ofInt i = if i < 0 then '-' :: Decimal.digitsOf i.natAbs
      else Decimal.digitsOf i.natAbs := by
  cases i with
  | ofNat n => rw [if_neg (by simp)]; rfl
  | negSucc n => rw [if_pos (Int.negSucc_lt_zero n)]; rfl

theorem Number.chars_literal (l : Decimal.Layout) {n : Number} (h : n.Finite) :
    (n.literal l).chars = n.charsIn l := by
  cases n with
  | int i =>
    simp only [Number.literal, Number.charsIn, Numeral.chars, Numeral.unsignedChars,
      Numeral.fractionChars, Numeral.exponentChars, List.append_nil, decide_eq_true_eq]
    rw [ofInt_eq]
  | float x =>
    obtain ⟨negative, s, e, hx⟩ := isFinite_iff.1 h
    simp only [Number.literal, Number.charsIn, Decimal.Layout.float, hx]
    rw [Numeral.chars, Decimal.Layout.negative_literal, Decimal.Layout.unsignedChars_literal,
      String.toList_ofList]

theorem Number.wellFormed_literal (l : Decimal.Layout) (n : Number) :
    (n.literal l).WellFormed := by
  cases n with
  | int i =>
    refine ⟨Decimal.Layout.digits_digitsOf _, ?_, ?_, ?_⟩
    · intro r hr
      exact (Decimal.Layout.digitsOf_lead _ r hr).2
    · intro ds hds
      cases hds
    · intro negative ds hds
      cases hds
  | float x =>
    simp only [Number.literal]
    split
    · exact Decimal.Layout.wellFormed_literal l _ _ (Decimal.shortest_exponent _ _)
    · refine ⟨⟨by simp, by simp⟩, ?_, ?_, ?_⟩
      · intro r hr
        cases hr
        rfl
      · intro ds hds
        cases hds
      · intro negative ds hds
        cases hds

/-! ## Reading them -/

theorem isDigit_not_blank {c : Char} (h : c.isDigit = true) : isBlank c = false := by
  have hne : ∀ d : Char, d.isDigit = false → c ≠ d := by
    intro d hd he
    rw [he, hd] at h
    cases h
  simp [isBlank, hne ' ' (by decide), hne '\t' (by decide), hne '\n' (by decide),
    hne '\r' (by decide)]

/-- a literal starts with a digit or a sign -/
theorem chars_head {n : Numeral} (h : n.WellFormed) :
    ∃ c r, n.chars = c :: r ∧ (c = '-' ∨ c.isDigit = true) := by
  unfold Numeral.chars
  obtain ⟨hne, hd⟩ := h.whole
  split
  · exact ⟨'-', _, rfl, Or.inl rfl⟩
  · cases hw : n.whole with
    | nil => exact absurd hw hne
    | cons c r =>
      refine ⟨c, r ++ Numeral.fractionChars n.fraction ++ Numeral.exponentChars n.exponent, ?_,
        Or.inr (hd c (by rw [hw]; exact List.mem_cons_self ..))⟩
      simp [Numeral.unsignedChars, hw]

theorem readValue_literal {n : Numeral} (h : n.WellFormed) (fuel : Nat) (rest : List Char)
    (hrest : Ends rest) : readValue (fuel + 1) (n.chars ++ rest) = (.numeral n, some rest) := by
  obtain ⟨c, r, hcr, hc⟩ := chars_head h
  have hread := Numeral.read?_chars h hrest
  have hne : ∀ d : Char, d ≠ '-' → d.isDigit = false → c ≠ d := by
    intro d hd hd' he
    subst he
    rcases hc with hc | hc
    · exact hd hc
    · rw [hd'] at hc
      cases hc
  have hblank : isBlank c = false := by
    rcases hc with rfl | hc
    · decide
    · exact isDigit_not_blank hc
  have hnum : readNumeral (n.chars ++ rest) = (.numeral n, some rest) := by
    rw [readNumeral, hread]
  rw [hcr, List.cons_append] at hnum ⊢
  rw [readValue, skipBlank_cons _ hblank]
  split
  · rename_i he; cases he
  · rename_i he; cases he; exact absurd rfl (hne _ (by decide) (by decide))
  · rename_i he; cases he; exact absurd rfl (hne _ (by decide) (by decide))
  · rename_i he; cases he; exact absurd rfl (hne _ (by decide) (by decide))
  · rename_i he; cases he; exact absurd rfl (hne _ (by decide) (by decide))
  · rename_i he; cases he; exact absurd rfl (hne _ (by decide) (by decide))
  · rename_i he; cases he; exact absurd rfl (hne _ (by decide) (by decide))
  · exact hnum

/-- the text of a finite number reads as its literal -/
theorem Number.spelled (l : Decimal.Layout) {n : Number} (h : n.Finite) :
    Spelled (Number.charsIn l) (fun n => .numeral (n.literal l)) n := by
  have hw := n.wellFormed_literal l
  have hc := n.chars_literal l h
  refine ⟨?_, ?_⟩
  · obtain ⟨c, r, hcr, hc'⟩ := chars_head hw
    refine ⟨c, r, by rw [← hc, hcr], ?_, ?_⟩
    · rcases hc' with rfl | hd
      · decide
      · exact isDigit_not_blank hd
    · rintro rfl
      rcases hc' with hd | hd
      · exact absurd hd (by decide)
      · exact absurd hd (by decide)
  · intro fuel rest hrest
    rw [← hc]
    exact readValue_literal hw fuel rest hrest

/-! ## Values -/

mutual

theorem EachNumber.imp {p q : Number → Prop} (hpq : ∀ n, p n → q n) (v : Json)
    (h : v.EachNumber p) : v.EachNumber q := by
  cases v with
  | num n =>
    simp only [EachNumber] at h ⊢
    exact hpq n h
  | arr items =>
    simp only [EachNumber] at h ⊢
    exact EachNumberIn.imp hpq items h
  | obj members =>
    simp only [EachNumber] at h ⊢
    exact EachNumberOf.imp hpq members h
  | null => simp only [EachNumber]
  | bool => simp only [EachNumber]
  | str => simp only [EachNumber]

theorem EachNumberIn.imp {p q : Number → Prop} (hpq : ∀ n, p n → q n) (vs : List Json)
    (h : EachNumberIn p vs) : EachNumberIn q vs := by
  cases vs with
  | nil => simp only [EachNumberIn]
  | cons v vs =>
    simp only [EachNumberIn] at h ⊢
    exact ⟨EachNumber.imp hpq v h.1, EachNumberIn.imp hpq vs h.2⟩

theorem EachNumberOf.imp {p q : Number → Prop} (hpq : ∀ n, p n → q n)
    (ms : List (String × Json)) (h : EachNumberOf p ms) : EachNumberOf q ms := by
  cases ms with
  | nil => simp only [EachNumberOf]
  | cons m ms =>
    obtain ⟨k, v⟩ := m
    simp only [EachNumberOf] at h ⊢
    exact ⟨EachNumber.imp hpq v h.1, EachNumberOf.imp hpq ms h.2⟩

end

theorem eachNumberIn_iff {p : Number → Prop} {vs : List Json} :
    EachNumberIn p vs ↔ ∀ v ∈ vs, v.EachNumber p := by
  induction vs with
  | nil => simp [EachNumberIn]
  | cons v vs ih => simp [EachNumberIn, ih]

theorem eachNumberOf_iff {p : Number → Prop} {ms : List (String × Json)} :
    EachNumberOf p ms ↔ ∀ m ∈ ms, m.2.EachNumber p := by
  induction ms with
  | nil => simp [EachNumberOf]
  | cons m ms ih => simp [EachNumberOf, ih]

/-- The tree of the text of a value whose floats have a layout. -/
abbrev nodeIn (l : Decimal.Layout) (v : Json) : Node :=
  written (fun n => .numeral (n.literal l)) v

/-- the text of a value with finite numbers reads as its tree -/
theorem ofChars_charsIn (l : Decimal.Layout) (v : Json) (h : v.Finite) :
    Source.ofChars (compactChars (Number.charsIn l) v) = ⟨nodeIn l v, true⟩ :=
  ofChars_compact v (EachNumber.imp (fun _ hn => Number.spelled l hn) v h)

mutual

theorem sound_nodeIn (l : Decimal.Layout) (v : Json) : (nodeIn l v).sound = true := by
  cases v with
  | arr items =>
    simp only [nodeIn, written, Node.sound]
    exact sound_itemsIn l items
  | obj members =>
    simp only [nodeIn, written, Node.sound]
    exact sound_membersIn l members
  | null => rfl
  | bool => rfl
  | num => rfl
  | str => rfl

theorem sound_itemsIn (l : Decimal.Layout) (vs : List Json) :
    Node.soundItems (writtenItems (fun n => .numeral (n.literal l)) vs) = true := by
  cases vs with
  | nil => rfl
  | cons v vs =>
    simp only [writtenItems, Node.soundItems, Bool.and_eq_true]
    exact ⟨sound_nodeIn l v, sound_itemsIn l vs⟩

theorem sound_membersIn (l : Decimal.Layout) (ms : List (String × Json)) :
    Node.soundMembers (writtenMembers (fun n => .numeral (n.literal l)) ms) = true := by
  cases ms with
  | nil => rfl
  | cons m ms =>
    obtain ⟨k, v⟩ := m
    simp only [writtenMembers, Node.soundMembers, Bool.and_eq_true]
    exact ⟨⟨rfl, sound_nodeIn l v⟩, sound_membersIn l ms⟩

end

end ViewDesign.Json
