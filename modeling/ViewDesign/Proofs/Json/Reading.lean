import ViewDesign.Json.Printer
import ViewDesign.Json.Reader

/-!
# Reading a printed JSON text

The compact text of a value reads back as the tree of the value, whatever its numbers are written
like, as long as the text of a number reads as one node.

* `readString?_quoted`    a quoted string, followed by any text;
* `Spelled`               what is asked of the text of a number;
* `written`               the tree of a value whose numbers have given nodes;
* `nesting`               how many levels a value has;
* `readValue_compact`     a printed value, followed by a text that does not continue it;
* `ofChars_compact`       a whole text.
-/

namespace ViewDesign.Json

/-! ## Strings -/

theorem hexDigit_value : ∀ d < 16, Decimal.digitValue? 16 (hexDigit d) = some d := by decide

theorem hexQuad?_low (n : Nat) (h : n < 256) :
    hexQuad? '0' '0' (hexDigit (n / 16)) (hexDigit (n % 16)) = some n := by
  have h0 : Decimal.digitValue? 16 '0' = some 0 := by decide
  have h1 := hexDigit_value (n / 16) (by omega)
  have h2 := hexDigit_value (n % 16) (by omega)
  simp [hexQuad?, Decimal.natural?, h0, h1, h2]
  omega

theorem ofUnit_toNat (c : Char) (h : c.toNat < 32) : Piece.ofUnit c.toNat = .char c := by
  rw [Piece.ofUnit, if_neg (by omega), if_neg (by omega), Char.ofNat_toNat]

/-- an escaped character reads as the character -/
theorem readPieces?_escapeChar (c : Char) (rest : List Char) :
    readPieces? (escapeChar c ++ rest) =
      (readPieces? rest).map fun p => (.char c :: p.1, p.2) := by
  unfold escapeChar
  split
  · subst_vars
    cases h : readPieces? rest <;> simp [readPieces?, escapeLetter?, h]
  split
  · subst_vars
    cases h : readPieces? rest <;> simp [readPieces?, escapeLetter?, h]
  split
  · subst_vars
    cases h : readPieces? rest <;> simp [readPieces?, escapeLetter?, h]
  split
  · subst_vars
    cases h : readPieces? rest <;> simp [readPieces?, escapeLetter?, h]
  split
  · subst_vars
    cases h : readPieces? rest <;> simp [readPieces?, escapeLetter?, h]
  split
  · subst_vars
    cases h : readPieces? rest <;> simp [readPieces?, escapeLetter?, h]
  split
  · subst_vars
    cases h : readPieces? rest <;> simp [readPieces?, escapeLetter?, h]
  split
  · rename_i hc
    cases h : readPieces? rest <;>
      simp [readPieces?, hexQuad?_low c.toNat (by omega), ofUnit_toNat c hc, h]
  · rename_i h1 h2 h3 h4 h5 h6 h7 h8
    rw [List.cons_append, List.nil_append, readPieces?.eq_def]
    cases h : readPieces? rest <;> split <;> simp_all

theorem readPieces?_escaped (cs rest : List Char) :
    readPieces? (cs.flatMap escapeChar ++ '"' :: rest) = some (cs.map .char, rest) := by
  induction cs with
  | nil => rfl
  | cons c cs ih =>
    rw [List.flatMap_cons, List.append_assoc, readPieces?_escapeChar, ih]
    rfl

theorem joinPieces?_chars (cs : List Char) : joinPieces? (cs.map .char) = some cs := by
  induction cs with
  | nil => rfl
  | cons c cs ih =>
    show (joinPieces? (cs.map .char)).map (c :: ·) = _
    rw [ih]
    rfl

theorem readString?_quoted (s : String) (rest : List Char) :
    readString? (s.toList.flatMap escapeChar ++ '"' :: rest) = some (some s, rest) := by
  rw [readString?, readPieces?_escaped]
  simp [joinPieces?_chars]

/-! ## Trees of printed values -/

mutual

/-- The tree of a value whose numbers have given nodes. -/
def written (node : Number → Node) : Json → Node
  | .null => .null
  | .bool b => .bool b
  | .num n => node n
  | .str s => .string (some s)
  | .arr items => .sequence (writtenItems node items)
  | .obj members => .mapping (writtenMembers node members)

/-- The trees of elements. -/
def writtenItems (node : Number → Node) : List Json → List Node
  | [] => []
  | v :: rest => written node v :: writtenItems node rest

/-- The trees of members. -/
def writtenMembers (node : Number → Node) : List (String × Json) → List (Node × Node)
  | [] => []
  | (k, v) :: rest => (.string (some k), written node v) :: writtenMembers node rest

end

mutual

/-- All numbers of a value have a property. -/
def EachNumber (p : Number → Prop) : Json → Prop
  | .num n => p n
  | .arr items => EachNumberIn p items
  | .obj members => EachNumberOf p members
  | _ => True

/-- All numbers of some elements have it. -/
def EachNumberIn (p : Number → Prop) : List Json → Prop
  | [] => True
  | v :: rest => EachNumber p v ∧ EachNumberIn p rest

/-- All numbers of some members have it. -/
def EachNumberOf (p : Number → Prop) : List (String × Json) → Prop
  | [] => True
  | (_, v) :: rest => EachNumber p v ∧ EachNumberOf p rest

end

mutual

/-- How many levels of arrays and objects a value has. -/
def nesting : Json → Nat
  | .arr items => nestingItems items + 1
  | .obj members => nestingMembers members + 1
  | _ => 0

/-- How many levels the deepest of some elements has. -/
def nestingItems : List Json → Nat
  | [] => 0
  | v :: rest => max (nesting v) (nestingItems rest)

/-- How many levels the deepest of some members has. -/
def nestingMembers : List (String × Json) → Nat
  | [] => 0
  | (_, v) :: rest => max (nesting v) (nestingMembers rest)

end

theorem nesting_item {v : Json} {vs : List Json} (h : v ∈ vs) : v.nesting ≤ nestingItems vs := by
  induction vs with
  | nil => cases h
  | cons w vs ih =>
    rw [nestingItems]
    rcases List.mem_cons.mp h with rfl | h
    · exact Nat.le_max_left ..
    · exact Nat.le_trans (ih h) (Nat.le_max_right ..)

theorem nesting_member {k : String} {v : Json} {ms : List (String × Json)} (h : (k, v) ∈ ms) :
    v.nesting ≤ nestingMembers ms := by
  induction ms with
  | nil => cases h
  | cons m ms ih =>
    obtain ⟨k', w⟩ := m
    rw [nestingMembers]
    rcases List.mem_cons.mp h with h | h
    · cases h
      exact Nat.le_max_left ..
    · exact Nat.le_trans (ih h) (Nat.le_max_right ..)

/-- The text does not go on with a number literal. -/
def Ends (rest : List Char) : Prop :=
  ∀ c r, rest = c :: r → c.isDigit = false ∧ c ≠ '.' ∧ c ≠ 'e' ∧ c ≠ 'E'

theorem ends_nil : Ends [] := by
  intro c r h
  cases h

theorem ends_cons {c : Char} {r : List Char}
    (h : c.isDigit = false ∧ c ≠ '.' ∧ c ≠ 'e' ∧ c ≠ 'E') : Ends (c :: r) := by
  intro c' r' h'
  cases h'
  exact h

/-- A number is written so that it reads as one node. -/
structure Spelled (number : Number → List Char) (node : Number → Node) (n : Number) : Prop where
  head : ∃ c r, number n = c :: r ∧ isBlank c = false ∧ c ≠ ']'
  reads : ∀ fuel rest, Ends rest → readValue (fuel + 1) (number n ++ rest) = (node n, some rest)

/-! ## Values -/

section
variable {number : Number → List Char} {node : Number → Node}

theorem skipBlank_cons {c : Char} (r : List Char) (h : isBlank c = false) :
    skipBlank (c :: r) = c :: r := by
  rw [skipBlank, List.dropWhile_cons, h]
  rfl

theorem compactChars_head (v : Json) (h : v.EachNumber (Spelled number node)) :
    ∃ c r, compactChars number v = c :: r ∧ isBlank c = false ∧ c ≠ ']' := by
  cases v with
  | null => exact ⟨_, _, rfl, by decide, by decide⟩
  | bool b => cases b <;> exact ⟨_, _, rfl, by decide, by decide⟩
  | num n =>
    simp only [EachNumber] at h
    simpa only [compactChars] using h.head
  | str s => exact ⟨_, _, by rw [compactChars, quoted], by decide, by decide⟩
  | arr items => exact ⟨_, _, by rw [compactChars], by decide, by decide⟩
  | obj members => exact ⟨_, _, by rw [compactChars], by decide, by decide⟩

theorem readValue_quoted (fuel : Nat) (s : String) (rest : List Char) :
    readValue (fuel + 1) (quoted s ++ rest) = (.string (some s), some rest) := by
  have hq : quoted s ++ rest = '"' :: (s.toList.flatMap escapeChar ++ '"' :: rest) := by
    simp [quoted]
  rw [readValue, hq, skipBlank_cons _ (by decide)]
  simp only [readString?_quoted]

theorem readItems_of_nonempty {fuel : Nat} {cs : List Char} {c : Char} {r : List Char}
    (h : cs = c :: r) (hb : isBlank c = false) (hc : c ≠ ']') (rest : List Char) :
    readValue (fuel + 1) ('[' :: (cs ++ rest)) =
      (.sequence (readItems fuel (cs ++ rest)).1, (readItems fuel (cs ++ rest)).2) := by
  subst h
  rw [readValue, skipBlank_cons _ (by decide)]
  simp only [List.cons_append, skipBlank_cons _ hb]
  split
  · rename_i heq
    cases heq
    exact absurd rfl hc
  · rfl

private theorem ends_bracket (r : List Char) : Ends (']' :: r) := ends_cons (by decide)
private theorem ends_brace (r : List Char) : Ends ('\x7d' :: r) := ends_cons (by decide)
private theorem ends_comma (r : List Char) : Ends (',' :: r) := ends_cons (by decide)

theorem readMembers_cons (fuel : Nat) (k : String) (cs : List Char) :
    readMembers (fuel + 2) (quoted k ++ ':' :: cs) =
      match readValue (fuel + 1) cs with
      | (v, none) => ([(.string (some k), v)], none)
      | (v, some rest) =>
        match skipBlank rest with
        | '\x7d' :: rest => ([(.string (some k), v)], some rest)
        | ',' :: rest =>
          ((.string (some k), v) :: (readMembers (fuel + 1) rest).1,
            (readMembers (fuel + 1) rest).2)
        | _ => ([(.string (some k), v), (.broken, .broken)], none) := by
  rw [readMembers, readValue_quoted]
  dsimp only
  rewrite [skipBlank_cons _ (by decide)]
  rfl

mutual

/-- a printed value reads as its tree, and the text after it is left -/
theorem readValue_compact (v : Json) (h : v.EachNumber (Spelled number node)) (fuel : Nat)
    (rest : List Char) (hfuel : 2 * (compactChars number v).length ≤ fuel) (hrest : Ends rest) :
    readValue fuel (compactChars number v ++ rest) = (written node v, some rest) := by
  obtain ⟨c, r, hcr, -⟩ := compactChars_head v h
  obtain ⟨f, rfl⟩ : ∃ f, fuel = f + 1 := ⟨fuel - 1, by rw [hcr] at hfuel; simp at hfuel; omega⟩
  -- the first character of each kind of value decides the reader, which leaves the rest
  cases v with
  | null => rfl
  | bool b => cases b <;> rfl
  | num n =>
    simp only [EachNumber] at h
    simp only [compactChars, written]
    exact h.reads f rest hrest
  | str s =>
    simp only [compactChars, written]
    exact readValue_quoted f s rest
  | arr items =>
    cases items with
    | nil => rfl
    | cons v vs =>
      simp only [EachNumber] at h
      simp only [compactChars, List.length_cons, List.length_append, List.length_nil] at hfuel
      have hi := readItems_compact v vs h f rest (by omega)
      obtain ⟨c, r, hcr, hb, hne⟩ := compactChars_head v h.1
      have hcr' : compactItems number (v :: vs) ++ [']'] =
          c :: (r ++ compactMoreItems number vs ++ [']']) := by
        rw [compactItems, hcr]
        simp
      simp only [compactChars, List.cons_append]
      rw [readItems_of_nonempty hcr' hb hne, List.append_assoc, List.singleton_append, hi]
      rfl
  | obj members =>
    cases members with
    | nil => rfl
    | cons e rest' =>
      obtain ⟨k, v⟩ := e
      simp only [EachNumber] at h
      simp only [compactChars, List.length_cons, List.length_append, List.length_nil] at hfuel
      have hm := readMembers_compact k v rest' h f rest (by omega)
      have hq : compactMembers number ((k, v) :: rest') ++ '\x7d' :: rest =
          '"' :: (k.toList.flatMap escapeChar ++ '"' :: ':' ::
            (compactChars number v ++ compactMoreMembers number rest' ++ '\x7d' :: rest)) := by
        simp [compactMembers, quoted]
      simp only [compactChars, List.cons_append, List.append_assoc, List.nil_append]
      rw [readValue, skipBlank_cons _ (by decide)]
      rw [hq] at hm ⊢
      simp only [skipBlank_cons _ (show isBlank '"' = false by decide)]
      show (Node.mapping (readMembers f _).1, (readMembers f _).2) = _
      rw [hm, written]
termination_by fuel

/-- printed elements up to the closing bracket -/
theorem readItems_compact (v : Json) (vs : List Json)
    (h : EachNumberIn (Spelled number node) (v :: vs)) (fuel : Nat) (rest : List Char)
    (hfuel : 2 * (compactItems number (v :: vs)).length + 1 ≤ fuel) :
    readItems fuel (compactItems number (v :: vs) ++ ']' :: rest) =
      (writtenItems node (v :: vs), some rest) := by
  obtain ⟨f, rfl⟩ : ∃ f, fuel = f + 1 := ⟨fuel - 1, by omega⟩
  obtain ⟨hv, hvs⟩ := h
  rw [compactItems, List.length_append] at hfuel
  cases vs with
  | nil =>
    simp only [compactItems, compactMoreItems, List.append_nil]
    rw [readItems, readValue_compact v hv f _ (by omega) (ends_bracket rest)]
    rfl
  | cons w ws =>
    rw [compactMoreItems, List.length_cons, ← compactItems] at hfuel
    have ih := readItems_compact w ws hvs f rest (by omega)
    have ht : compactItems number (v :: w :: ws) ++ ']' :: rest =
        compactChars number v ++ ',' :: (compactItems number (w :: ws) ++ ']' :: rest) := by
      simp [compactItems, compactMoreItems]
    rw [ht, readItems, readValue_compact v hv f _ (by omega) (ends_comma _)]
    simp only [skipBlank_cons _ (show isBlank ',' = false by decide), ih]
    rfl
termination_by fuel

/-- printed members up to the closing brace -/
theorem readMembers_compact (k : String) (v : Json) (ms : List (String × Json))
    (h : EachNumberOf (Spelled number node) ((k, v) :: ms)) (fuel : Nat) (rest : List Char)
    (hfuel : 2 * (compactMembers number ((k, v) :: ms)).length + 1 ≤ fuel) :
    readMembers fuel (compactMembers number ((k, v) :: ms) ++ '\x7d' :: rest) =
      (writtenMembers node ((k, v) :: ms), some rest) := by
  obtain ⟨hv, hms⟩ := h
  rw [compactMembers, List.length_append, List.length_cons, List.length_append] at hfuel
  obtain ⟨f, rfl⟩ : ∃ f, fuel = f + 2 := ⟨fuel - 2, by omega⟩
  cases ms with
  | nil =>
    have ht : compactMembers number [(k, v)] ++ '\x7d' :: rest =
        quoted k ++ ':' :: (compactChars number v ++ '\x7d' :: rest) := by
      simp [compactMembers, compactMoreMembers]
    rw [ht, readMembers_cons, readValue_compact v hv (f + 1) _ (by omega) (ends_brace rest)]
    rfl
  | cons e es =>
    obtain ⟨k', v'⟩ := e
    rw [compactMoreMembers, List.length_cons, ← compactMembers] at hfuel
    have ih := readMembers_compact k' v' es hms (f + 1) rest (by omega)
    have ht : compactMembers number ((k, v) :: (k', v') :: es) ++ '\x7d' :: rest =
        quoted k ++ ':' :: (compactChars number v ++
          ',' :: (compactMembers number ((k', v') :: es) ++ '\x7d' :: rest)) := by
      simp [compactMembers, compactMoreMembers]
    rw [ht, readMembers_cons, readValue_compact v hv (f + 1) _ (by omega) (ends_comma _)]
    simp only [skipBlank_cons _ (show isBlank ',' = false by decide), ih]
    rfl
termination_by fuel

end

/-- the text of a value reads as its tree, and nothing is left -/
theorem ofChars_compact (v : Json) (h : v.EachNumber (Spelled number node)) :
    Source.ofChars (compactChars number v) = ⟨written node v, true⟩ := by
  have hr := readValue_compact v h (2 * (compactChars number v).length + 1) [] (by omega) ends_nil
  rw [List.append_nil] at hr
  rw [Source.ofChars, hr]
  rfl

end

end ViewDesign.Json
