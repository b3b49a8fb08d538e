/-!
# Texts as sixteen-bit units

A character beyond `U+FFFF` counts as two units, a high half and a low half.  Lengths, positions
and the order of texts may be asked for in units although a text is kept in characters.

* `Units.ofChar`         the units of a character;
* `Units.ofText`         the units of a text;
* `Units.join`           the characters of a run of units;
* `Units.join_ofText`    joining gives the text back.
-/

namespace ViewDesign.Units

/-- The units of a character. -/
def ofChar (c : Char) : List Nat :=
  if c.toNat < 0x10000 then [c.toNat]
  else [0xD800 + (c.toNat - 0x10000) / 1024, 0xDC00 + (c.toNat - 0x10000) % 1024]

/-- The units of a text. -/
def ofText (s : String) : List Nat := s.toList.flatMap ofChar

/-- Whether a unit is the first half of a character. -/
def isHigh (u : Nat) : Bool := 0xD800 ≤ u && u < 0xDC00

/-- Whether a unit is the second half of a character. -/
def isLow (u : Nat) : Bool := 0xDC00 ≤ u && u < 0xE000

/-- What stands for a half without its other half. -/
def replacement : Char := '\uFFFD'

/-- A unit on its own. -/
def single (u : Nat) : Char := if isHigh u || isLow u then replacement else Char.ofNat u

/-- The characters of a run of units. -/
def join : List Nat → List Char
  | [] => []
  | [u] => [single u]
  | u :: v :: rest =>
    if isHigh u && isLow v then
      Char.ofNat (0x10000 + (u - 0xD800) * 1024 + (v - 0xDC00)) :: join rest
    else single u :: join (v :: rest)

/-- The number of units of a text. -/
def count (s : String) : Nat := (ofText s).length

/-- The text of the unit at a position. -/
def at? (s : String) (i : Nat) : Option String :=
  (ofText s)[i]?.map fun u => String.singleton (single u)

/-- The order of texts unit by unit. -/
def less (s t : String) : Bool := decide (ofText s < ofText t)

/-! ## Joining what was split -/

/-- No character is a half. -/
theorem not_half (c : Char) : ¬ (0xD800 ≤ c.toNat ∧ c.toNat < 0xE000) := by
  have h := c.valid
  simp only [UInt32.isValidChar, Nat.isValidChar] at h
  have : c.val.toNat = c.toNat := rfl
  omega

theorem single_toNat (c : Char) : single c.toNat = c := by
  have h := not_half c
  have : (isHigh c.toNat || isLow c.toNat) = false := by
    simp only [isHigh, isLow, Bool.or_eq_false_iff, Bool.and_eq_false_iff, decide_eq_false_iff_not]
    omega
  simp [single, this]

theorem join_cons_whole (c : Char) (h : c.toNat < 0x10000) (us : List Nat) :
    join (c.toNat :: us) = c :: join us := by
  cases us with
  | nil => simp [join, single_toNat]
  | cons v rest =>
    have hc := not_half c
    have : isHigh c.toNat = false := by
      simp only [isHigh, Bool.and_eq_false_iff, decide_eq_false_iff_not]
      omega
    simp [join, this, single_toNat]

/-- A character at the front is taken off whole. -/
theorem join_ofChar_append (c : Char) (us : List Nat) : join (ofChar c ++ us) = c :: join us := by
  unfold ofChar
  split
  · rename_i h
    simpa using join_cons_whole c h us
  · rename_i h
    have hv := c.valid
    simp only [UInt32.isValidChar, Nat.isValidChar] at hv
    have hn : c.val.toNat = c.toNat := rfl
    have hhigh : isHigh (0xD800 + (c.toNat - 0x10000) / 1024) = true := by
      simp only [isHigh, Bool.and_eq_true, decide_eq_true_eq]
      omega
    have hlow : isLow (0xDC00 + (c.toNat - 0x10000) % 1024) = true := by
      simp only [isLow, Bool.and_eq_true, decide_eq_true_eq]
      omega
    have hsum : 0x10000 + (0xD800 + (c.toNat - 0x10000) / 1024 - 0xD800) * 1024 +
        (0xDC00 + (c.toNat - 0x10000) % 1024 - 0xDC00) = c.toNat := by omega
    simp only [List.cons_append, List.nil_append, join, hhigh, hlow, Bool.and_self, if_true, hsum,
      Char.ofNat_toNat]

theorem join_flatMap (cs : List Char) : join (cs.flatMap ofChar) = cs := by
  induction cs with
  | nil => rfl
  | cons c cs ih => rw [List.flatMap_cons, join_ofChar_append, ih]

theorem join_ofText (s : String) : String.ofList (join (ofText s)) = s := by
  rw [ofText, join_flatMap, String.ofList_toList]

end ViewDesign.Units
