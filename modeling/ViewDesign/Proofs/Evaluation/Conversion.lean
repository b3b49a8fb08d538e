import ViewDesign.Proofs.Document.Records
import ViewDesign.Proofs.Evaluation.Lookup
import ViewDesign.Proofs.Json.Range

/-!
# Values on their way through a script and back

The numbers of a document are read as the numbers of a script, written by the script and read
again; all else comes back as it was.  Nothing that a script writes is out of range, so only the
nesting of a value can keep it from coming back.

* `Number.exact_json?`     what a script writes for a number can be read again;
* `Json.mapNumbers`        a value with each of its numbers replaced;
* `Json.Number.converted`  what becomes of a number;
* `reread_throughScript`   what becomes of a value;
* `Json.readAgain`         what becomes of a value that a script has made itself.
-/

namespace ViewDesign

/-! ## Numbers of a script -/

/-- what is written for a number can be read again -/
theorem Script.Number.exact_json? {n : Number} {m : Json.Number} (h : n.json? = some m) :
    m.Exact := by
  cases n with
  | int i =>
    simp only [json?] at h
    split at h
    · cases h
      assumption
    · obtain ⟨rfl, hx⟩ := floatJson?_finite h
      exact hx
  | double x =>
    obtain ⟨rfl, hx⟩ := floatJson?_finite h
    exact hx

/-! ## Numbers of a document -/

namespace Json

/-- What becomes of a number that goes through a script: the script reads it as the nearest number
that it has, null if there is none, and what it writes for that is read again. -/
def Number.converted (n : Number) : Json :=
  ((Script.Number.ofJson n).json?.bind (·.reread Script.Number.layout)).getD .null

/-- a script holds an exact integer as itself -/
theorem ofJson_exact {i : Int} (h : i.natAbs ≤ Script.Number.greatestExact) :
    Script.Number.ofJson (.int i) = .int i := by
  have habs : Script.Number.ofInt i.natAbs = .int i.natAbs := if_pos h
  rw [Evaluation.ofJson_int, habs]
  by_cases hneg : i < 0
  · rw [if_pos hneg, Script.Number.neg, if_neg (by omega)]
    congr 1
    omega
  · rw [if_neg hneg]
    congr 1
    omega

/-- an exact integer stays what it is -/
theorem converted_int {i : Int} (h : i.natAbs ≤ Script.Number.greatestExact) :
    Number.converted (.int i) = .ofInt i := by
  have hbound : Script.Number.greatestExact = 9007199254740992 := rfl
  have hread : Number.reread Script.Number.layout (.int i) = some (.num (.int i)) := by
    refine reread_int Script.Number.layout ?_ ?_
    · rw [minInt]
      omega
    · rw [maxInt]
      omega
  rw [Number.converted, ofJson_exact h]
  simp only [Script.Number.json?, if_pos h, Option.bind_some, hread]
  rfl

/-! ## Values -/

mutual

/-- A value with each of its numbers replaced. -/
def mapNumbers (f : Number → Json) : Json → Json
  | .null => .null
  | .bool b => .bool b
  | .num n => f n
  | .str s => .str s
  | .arr items => .arr (mapNumbersIn f items)
  | .obj members => .obj (mapNumbersOf f members)

/-- Elements with each of their numbers replaced. -/
def mapNumbersIn (f : Number → Json) : List Json → List Json
  | [] => []
  | v :: rest => mapNumbers f v :: mapNumbersIn f rest

/-- Members with each of their numbers replaced. -/
def mapNumbersOf (f : Number → Json) : List (String × Json) → List (String × Json)
  | [] => []
  | (k, v) :: rest => (k, mapNumbers f v) :: mapNumbersOf f rest

end

/-- What becomes of a value that goes through a script. -/
abbrev converted (v : Json) : Json := v.mapNumbers Number.converted

mutual

/-- The members of all objects in a value come in ascending order. -/
def Ordered : Json → Prop
  | .arr items => OrderedIn items
  | .obj members => Entries.Ascending members ∧ OrderedOf members
  | _ => True

/-- So do those in some elements. -/
def OrderedIn : List Json → Prop
  | [] => True
  | v :: rest => Ordered v ∧ OrderedIn rest

/-- So do those in the values of some members. -/
def OrderedOf : List (String × Json) → Prop
  | [] => True
  | (_, v) :: rest => Ordered v ∧ OrderedOf rest

end

end Json

namespace Evaluation

open Script

theorem names_membersThroughScript (ms : List (String × Json)) :
    (membersThroughScript ms).map Prod.fst = ms.map Prod.fst := by
  induction ms with
  | nil => simp [membersThroughScript]
  | cons m ms ih =>
    obtain ⟨k, v⟩ := m
    simp [membersThroughScript, ih]

theorem names_mapNumbersOf (f : Json.Number → Json) (ms : List (String × Json)) :
    (Json.mapNumbersOf f ms).map Prod.fst = ms.map Prod.fst := by
  induction ms with
  | nil => simp [Json.mapNumbersOf]
  | cons m ms ih =>
    obtain ⟨k, v⟩ := m
    simp [Json.mapNumbersOf, ih]

/-- a number that goes through a script comes back -/
theorem reread_number (n : Json.Number) (depth : Nat) :
    Json.reread Number.layout depth (throughScript (.num n)) = some n.converted := by
  rw [throughScript, Number.toJson, Json.Number.converted]
  cases hm : (Number.ofJson n).json? with
  | none => simp [Json.reread]
  | some m =>
    have hsome := (Number.exact_json? hm).reread
    rw [Option.map_some, Option.getD_some, Json.reread, Option.bind_some]
    obtain ⟨v, hv⟩ := Option.isSome_iff_exists.mp hsome
    rw [hv]
    rfl

mutual

/-- a value that is not nested too deeply goes through a script and comes back -/
theorem reread_throughScript (v : Json) (h : v.Ordered) (depth : Nat) (hdepth : v.nesting ≤ depth) :
    Json.reread Number.layout depth (throughScript v) = some v.converted := by
  cases v with
  | null => simp [throughScript, Json.reread, Json.mapNumbers]
  | bool b => simp [throughScript, Json.reread, Json.mapNumbers]
  | str s => simp [throughScript, Json.reread, Json.mapNumbers]
  | num n =>
    rw [Json.converted, Json.mapNumbers]
    exact reread_number n depth
  | arr items =>
    rw [Json.nesting] at hdepth
    obtain ⟨depth, rfl⟩ : ∃ d, depth = d + 1 := ⟨depth - 1, by omega⟩
    simp only [Json.Ordered] at h
    rw [throughScript, Json.reread, rereadItems_throughScript items h depth (by omega),
      Json.converted, Json.mapNumbers]
    rfl
  | obj ms =>
    rw [Json.nesting] at hdepth
    obtain ⟨depth, rfl⟩ : ∃ d, depth = d + 1 := ⟨depth - 1, by omega⟩
    simp only [Json.Ordered] at h
    have hnames : (ms.map Prod.fst).Pairwise (· < ·) := List.pairwise_map.mpr h.1
    have hmade : Entries.made (membersThroughScript ms) = membersThroughScript ms := by
      refine Entries.made_of_nodup ?_
      rw [names_membersThroughScript]
      exact h.1.nodup_names
    have hmapped := Entries.ascending_of_names _
      (names_mapNumbersOf Json.Number.converted ms) hnames
    -- the members are written in another order, and reading sorts them again
    have hvisited := perm_visitedEntries (membersThroughScript ms)
    rw [hmade] at hvisited
    obtain ⟨ns, hread, hns⟩ := Json.rereadMembers_perm hvisited
      (rereadMembers_throughScript ms h.2 depth (by omega))
    rw [throughScript, Json.reread, hread, Json.converted, Json.mapNumbers, Option.map_some,
      Json.object, Entries.ofList_of_perm hns hmapped]

theorem rereadItems_throughScript (vs : List Json) (h : Json.OrderedIn vs) (depth : Nat)
    (hdepth : Json.nestingItems vs ≤ depth) :
    Json.rereadItems Number.layout depth (itemsThroughScript vs) =
      some (Json.mapNumbersIn Json.Number.converted vs) := by
  cases vs with
  | nil => simp [itemsThroughScript, Json.rereadItems, Json.mapNumbersIn]
  | cons v vs =>
    rw [Json.nestingItems] at hdepth
    simp only [Json.OrderedIn] at h
    rw [itemsThroughScript, Json.rereadItems, reread_throughScript v h.1 depth (by omega),
      rereadItems_throughScript vs h.2 depth (by omega), Json.mapNumbersIn]
    rfl

theorem rereadMembers_throughScript (ms : List (String × Json)) (h : Json.OrderedOf ms)
    (depth : Nat) (hdepth : Json.nestingMembers ms ≤ depth) :
    Json.rereadMembers Number.layout depth (membersThroughScript ms) =
      some (Json.mapNumbersOf Json.Number.converted ms) := by
  cases ms with
  | nil => simp [membersThroughScript, Json.rereadMembers, Json.mapNumbersOf]
  | cons m ms =>
    obtain ⟨k, v⟩ := m
    rw [Json.nestingMembers] at hdepth
    simp only [Json.OrderedOf] at h
    rw [membersThroughScript, Json.rereadMembers, reread_throughScript v h.1 depth (by omega),
      rereadMembers_throughScript ms h.2 depth (by omega), Json.mapNumbersOf]
    rfl

end

end Evaluation

/-! ## Values that a script wrote -/

namespace Json

mutual

/-- A value that a script wrote, after reading its text: each number is what its literal is read as,
and the members of objects come in ascending order. -/
def readAgain : Json → Json
  | .null => .null
  | .bool b => .bool b
  | .num n => (n.reread Script.Number.layout).getD .null
  | .str s => .str s
  | .arr items => .arr (readAgainIn items)
  | .obj members => .object (readAgainOf members)

/-- Elements after reading their texts. -/
def readAgainIn : List Json → List Json
  | [] => []
  | v :: rest => readAgain v :: readAgainIn rest

/-- Members after reading their texts. -/
def readAgainOf : List (String × Json) → List (String × Json)
  | [] => []
  | (k, v) :: rest => (k, readAgain v) :: readAgainOf rest

end

mutual

/-- a value that is not nested too deeply is read again -/
theorem reread_eq_readAgain (v : Json) (h : v.EachNumber Number.Exact) (depth : Nat)
    (hdepth : v.nesting ≤ depth) : reread Script.Number.layout depth v = some v.readAgain := by
  cases v with
  | null => simp [reread, readAgain]
  | bool b => simp [reread, readAgain]
  | str s => simp [reread, readAgain]
  | num n =>
    simp only [EachNumber] at h
    obtain ⟨w, hw⟩ := Option.isSome_iff_exists.mp h.reread
    rw [reread, readAgain, hw]
    rfl
  | arr items =>
    rw [nesting] at hdepth
    obtain ⟨depth, rfl⟩ : ∃ d, depth = d + 1 := ⟨depth - 1, by omega⟩
    simp only [EachNumber] at h
    rw [reread, rereadItems_eq_readAgain items h depth (by omega), readAgain]
    rfl
  | obj ms =>
    rw [nesting] at hdepth
    obtain ⟨depth, rfl⟩ : ∃ d, depth = d + 1 := ⟨depth - 1, by omega⟩
    simp only [EachNumber] at h
    rw [reread, rereadMembers_eq_readAgain ms h depth (by omega), readAgain]
    rfl

theorem rereadItems_eq_readAgain (vs : List Json) (h : EachNumberIn Number.Exact vs) (depth : Nat)
    (hdepth : nestingItems vs ≤ depth) :
    rereadItems Script.Number.layout depth vs = some (readAgainIn vs) := by
  cases vs with
  | nil => simp [rereadItems, readAgainIn]
  | cons v vs =>
    rw [nestingItems] at hdepth
    simp only [EachNumberIn] at h
    rw [rereadItems, reread_eq_readAgain v h.1 depth (by omega),
      rereadItems_eq_readAgain vs h.2 depth (by omega), readAgainIn]
    rfl

theorem rereadMembers_eq_readAgain (ms : List (String × Json)) (h : EachNumberOf Number.Exact ms)
    (depth : Nat) (hdepth : nestingMembers ms ≤ depth) :
    rereadMembers Script.Number.layout depth ms = some (readAgainOf ms) := by
  cases ms with
  | nil => simp [rereadMembers, readAgainOf]
  | cons m ms =>
    obtain ⟨k, v⟩ := m
    rw [nestingMembers] at hdepth
    simp only [EachNumberOf] at h
    rw [rereadMembers, reread_eq_readAgain v h.1 depth (by omega),
      rereadMembers_eq_readAgain ms h.2 depth (by omega), readAgainOf]
    rfl

end

end Json

end ViewDesign
