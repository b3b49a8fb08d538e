import ViewDesign.Design
import ViewDesign.Proofs.Entries

/-!
# The specifications of a definition

All specifications of a definition come in the order of their names, and the one of a name is among
them.

* `DesignDefinition.ascending_specs`    their names ascend;
* `DesignDefinition.mem_specs`          each is the specification of its name;
* `DesignDefinition.spec_unknown`       other names have none.
-/

namespace ViewDesign.DesignDefinition

variable {d : DesignDefinition} {s : ViewSpec} {name : String}

theorem ascending_specs (d : DesignDefinition) : (d.specs.map ViewSpec.name).Pairwise (· < ·) := by
  rw [specs, List.map_map]
  exact List.pairwise_map.mpr d.views.ascending

theorem name_of_spec (h : d.spec name = .ok s) : s.name = name := by
  unfold spec at h
  split at h
  · obtain rfl := Except.ok.inj h
    rfl
  · cases h

/-- a specification is the one of its name -/
theorem mem_specs : s ∈ d.specs ↔ d.spec s.name = .ok s := by
  have hentry : ∀ v, (s.name, v) ∈ d.views.entries ↔ d.views.get? s.name = some v :=
    fun v => (Entries.get?_eq_some_iff d.views.ascending).symm
  rw [specs, List.mem_map, spec]
  constructor
  · rintro ⟨⟨name, v⟩, hmem, rfl⟩
    have hfound : d.views.get? (d.specOf name v).name = some v := (hentry v).mp hmem
    rw [hfound]
    rfl
  · intro h
    split at h
    · rename_i v hfound
      exact ⟨_, (hentry v).mpr hfound, Except.ok.inj h⟩
    · cases h

/-- a name that no specification has -/
theorem spec_unknown (h : ∀ s ∈ d.specs, s.name ≠ name) :
    d.spec name = .error (.noSuchView d.model name) := by
  cases hspec : d.spec name with
  | ok s =>
    have hname := name_of_spec hspec
    subst hname
    exact absurd rfl (h s (mem_specs.mpr hspec))
  | error e =>
    unfold spec at hspec
    split at hspec
    · cases hspec
    · rw [← Except.error.inj hspec]

end ViewDesign.DesignDefinition
