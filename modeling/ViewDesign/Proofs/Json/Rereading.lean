import Mathlib.Data.List.Perm.Basic
import ViewDesign.Document.Decoder
import ViewDesign.Proofs.Json.Spelling
import ViewDesign.Proofs.Traversal

/-!
# Values that are read from their own text

A value that is decoded from its text comes back with its numbers read from their literals and its
members ascending; it is refused exactly if it is nested too deeply or a literal is out of range.
What a decoder would complain about depends on the place, its result does not.

* `Number.reread`       a number after reading its literal;
* `reread`              a value after reading its text, at most so many levels deep;
* `freeNode_written`    this is what the decoder gives.
-/

namespace ViewDesign.Json

/-- A number after reading the literal that is written for it. -/
def Number.reread (l : Decimal.Layout) (n : Number) : Option Json :=
  (n.literal l).value?.map fun
    | .int i => .ofInt i
    | .float x => .ofFloat x

mutual

/-- A value after reading its text, `none` if it is nested more than so many levels deep or a
number is out of range. -/
def reread (l : Decimal.Layout) : Nat → Json → Option Json
  | _, .null => some .null
  | _, .bool b => some (.bool b)
  | _, .num n => n.reread l
  | _, .str s => some (.str s)
  | 0, .arr _ => none
  | depth + 1, .arr items => (rereadItems l depth items).map .arr
  | 0, .obj _ => none
  | depth + 1, .obj members => (rereadMembers l depth members).map .object

/-- Elements after reading their texts. -/
def rereadItems (l : Decimal.Layout) (depth : Nat) : List Json → Option (List Json)
  | [] => some []
  | v :: rest => do
    let v ← reread l depth v
    return v :: (← rereadItems l depth rest)

/-- Members after reading their texts. -/
def rereadMembers (l : Decimal.Layout) (depth : Nat) :
    List (String × Json) → Option (List (String × Json))
  | [] => some []
  | (k, v) :: rest => do
    let v ← reread l depth v
    return (k, v) :: (← rereadMembers l depth rest)

end

theorem rereadMembers_eq_some {l : Decimal.Layout} {depth : Nat} {ms ns : List (String × Json)} :
    rereadMembers l depth ms = some ns ↔
      List.Forall₂ (fun m n => m.1 = n.1 ∧ reread l depth m.2 = some n.2) ms ns := by
  induction ms generalizing ns with
  | nil => simp [rereadMembers, eq_comm]
  | cons m ms ih =>
    obtain ⟨k, v⟩ := m
    rw [rereadMembers, List.forall₂_cons_left_iff]
    simp only [Option.bind_eq_bind, Option.bind_eq_some_iff, Option.pure_def, Option.some.injEq]
    constructor
    · rintro ⟨w, hw, rest, hrest, rfl⟩
      exact ⟨(k, w), rest, ⟨rfl, hw⟩, ih.mp hrest, rfl⟩
    · rintro ⟨⟨k', w⟩, rest, ⟨rfl, hw⟩, hrest, rfl⟩
      exact ⟨w, hw, rest, ih.mpr hrest, rfl⟩

/-- members in another order are read in that order -/
theorem rereadMembers_perm {l : Decimal.Layout} {depth : Nat} {ms ms' ns : List (String × Json)}
    (h : ms.Perm ms') (hread : rereadMembers l depth ms' = some ns) :
    ∃ ns', rereadMembers l depth ms = some ns' ∧ ns'.Perm ns := by
  obtain ⟨ns', hns', hperm⟩ := List.perm_comp_forall₂ h (rereadMembers_eq_some.mp hread)
  exact ⟨ns', rereadMembers_eq_some.mpr hns', hperm⟩

/-! ## The decoder -/

section
variable {l : Decimal.Layout} {path : Path}

theorem freeScalar_literal (n : Number) (ctx : Context) :
    (Decoder.freeScalar ctx (.numeral (n.literal l))).toOption = n.reread l := by
  simp only [Decoder.freeScalar, Decoder.found, Number.reread]
  cases (n.literal l).value? with
  | none => rfl
  | some m => cases m <;> rfl

mutual

theorem freeNode_written (v : Json) (depth : Nat) (path : Path) :
    (Decoder.freeNode ⟨.text, some depth, path⟩ (nodeIn l v)).toOption = reread l depth v := by
  cases v with
  | null => rfl
  | bool b => rfl
  | str s => rfl
  | num n => exact freeScalar_literal n _
  | arr items =>
    cases depth with
    | zero => rfl
    | succ depth =>
      show (Decoder.freeItems ⟨.text, some depth, path⟩ 0 (writtenItems
        (fun n => .numeral (n.literal l)) items) >>= fun vs => pure (Json.arr vs)).toOption = _
      rw [toOption_bind, freeItems_written items depth path 0, reread]
      cases rereadItems l depth items <;> rfl
  | obj members =>
    cases depth with
    | zero => rfl
    | succ depth =>
      show (Decoder.freeMembers ⟨.text, some depth, path⟩ (writtenMembers
        (fun n => .numeral (n.literal l)) members) >>= fun ms => pure (Json.object ms)).toOption = _
      rw [toOption_bind, freeMembers_written members depth path, reread]
      cases rereadMembers l depth members <;> rfl

theorem freeItems_written (vs : List Json) (depth : Nat) (path : Path) (i : Nat) :
    (Decoder.freeItems ⟨.text, some depth, path⟩ i
      (writtenItems (fun n => .numeral (n.literal l)) vs)).toOption = rereadItems l depth vs := by
  cases vs with
  | nil => rfl
  | cons v vs =>
    simp only [writtenItems, Decoder.freeItems, Context.item, rereadItems, toOption_bind]
    rw [freeNode_written v depth, freeItems_written vs depth path (i + 1)]
    rfl

theorem freeMembers_written (ms : List (String × Json)) (depth : Nat) (path : Path) :
    (Decoder.freeMembers ⟨.text, some depth, path⟩
      (writtenMembers (fun n => .numeral (n.literal l)) ms)).toOption =
        rereadMembers l depth ms := by
  cases ms with
  | nil => rfl
  | cons m ms =>
    obtain ⟨k, v⟩ := m
    show (Decoder.freeNode ⟨.text, some depth, .member k :: path⟩ (nodeIn l v) >>= fun v =>
      Decoder.freeMembers ⟨.text, some depth, path⟩ (writtenMembers
        (fun n => .numeral (n.literal l)) ms) >>= fun ms => pure ((k, v) :: ms)).toOption = _
    simp only [toOption_bind, rereadMembers]
    rw [freeNode_written v depth, freeMembers_written ms depth path]
    rfl

end

end

/-! ## Natural numbers -/

/-- a natural of sixty-four bits is read as itself -/
theorem value?_literal_nat (l : Decimal.Layout) {n : Nat} (h : n ≤ Numeral.maxWord) :
    (Number.literal l (.int n)).value? = some (.int n) := by
  have hvalue : Decimal.valueFrom 0 (Decimal.digitsOf n) = n := Decimal.valueOf_digitsOf n
  have hcollect : Numeral.collect 0 (Decimal.digitsOf n) = (n, []) := by
    rw [Numeral.collect_of_le 0 _ (by rw [hvalue]; exact h), hvalue]
  simp [Number.literal, Numeral.value?, hcollect]

end ViewDesign.Json
