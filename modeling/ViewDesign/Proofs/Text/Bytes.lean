import Mathlib.Tactic.SplitIfs

/-!
# The order of texts by their bytes

Texts are compared code point by code point.  Their UTF-8 bytes come in the same order: the first
byte of a character tells how many follow, more of them for greater code points, and the bits of
the code point are laid out from the highest on.

* `Bytes.ofText`             the UTF-8 bytes of a text;
* `Bytes.Less`               one text is before another by its bytes;
* `Bytes.lex_encodeChar`     the bytes of a lesser character are before those of a greater;
* `Bytes.less_iff`           the two orders are one.
-/

namespace ViewDesign.Bytes

/-- The UTF-8 bytes of a text. -/
def ofText (s : String) : List UInt8 := s.toUTF8.data.toList

/-- One text is before another by its bytes. -/
def Less (s t : String) : Prop := List.Lex (· < ·) (ofText s) (ofText t)

theorem ofText_eq_flatMap (s : String) : ofText s = s.toList.flatMap String.utf8EncodeChar := by
  have hbytes : s.toUTF8 = (s.toList.flatMap String.utf8EncodeChar).toByteArray := by
    rw [String.toUTF8_eq_toByteArray]
    conv =>
      lhs
      rw [← String.ofList_toList (s := s)]
    rfl
  rw [ofText, hbytes]
  simp

/-- whatever follows, a lesser character comes first -/
theorem lex_encodeChar {c d : Char} (h : c < d) (s t : List UInt8) :
    List.Lex (· < ·) (String.utf8EncodeChar c ++ s) (String.utf8EncodeChar d ++ t) := by
  have hlt : c.val.toNat < d.val.toNat := h
  have hmax : d.val.toNat < 0x110000 := by rcases d.valid with h | h <;> omega
  -- the digits to the base 64, each from the one after it
  have hthird : ∀ n, n / 4096 = n / 64 / 64 := by omega
  have hfourth : ∀ n, n / 262144 = n / 64 / 64 / 64 := by omega
  unfold String.utf8EncodeChar
  dsimp only
  generalize c.val.toNat = m at *
  generalize d.val.toNat = n at *
  split_ifs <;>
    simp only [List.cons_append, List.nil_append, List.cons_lex_cons_iff, UInt8.lt_iff_toNat_lt,
      ← UInt8.toNat_inj, UInt8.toNat_ofNat', hthird, hfourth] <;>
    omega

theorem lex_append_left {s t : List UInt8} (bytes : List UInt8) (h : List.Lex (· < ·) s t) :
    List.Lex (· < ·) (bytes ++ s) (bytes ++ t) := by
  induction bytes with
  | nil => exact h
  | cons b bytes ih => exact .cons ih

/-- characters in order give bytes in order -/
theorem lex_flatMap {cs ds : List Char} (h : List.Lex (· < ·) cs ds) :
    List.Lex (· < ·) (cs.flatMap String.utf8EncodeChar) (ds.flatMap String.utf8EncodeChar) := by
  induction h with
  | @nil d ds =>
    have hne := String.utf8EncodeChar_ne_nil (c := d)
    rw [List.flatMap_cons, List.flatMap_nil]
    cases hbytes : String.utf8EncodeChar d with
    | nil => exact absurd hbytes hne
    | cons b bytes => exact .nil
  | rel hlt =>
    rw [List.flatMap_cons, List.flatMap_cons]
    exact lex_encodeChar hlt _ _
  | cons _ ih =>
    rw [List.flatMap_cons, List.flatMap_cons]
    exact lex_append_left _ ih

theorem less_of_lt {s t : String} (h : s < t) : Less s t := by
  rw [Less, ofText_eq_flatMap, ofText_eq_flatMap]
  exact lex_flatMap (List.lex_lt.mpr (String.lt_iff.mp h))

theorem Less.asymm {s t : String} (h : Less s t) : ¬ Less t s := by
  rw [Less, List.lex_lt] at h ⊢
  exact List.lt_asymm h

/-- **Bytes.** The order of texts by their bytes is that by their code points. -/
theorem less_iff {s t : String} : Less s t ↔ s < t := by
  refine ⟨fun h => ?_, less_of_lt⟩
  rcases Std.lt_trichotomy s t with hlt | rfl | hgt
  · exact hlt
  · exact absurd h h.asymm
  · exact absurd (less_of_lt hgt) h.asymm

end ViewDesign.Bytes
