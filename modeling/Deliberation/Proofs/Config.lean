import Deliberation.Config.Basic

/-!
Settings that their check lets pass. The weights of words that it accepts are the finite numbers
that are not negative.
-/

namespace Deliberation.Config

variable {config : Config} {weight : Float}

theorem isBadWeight_eq_false_iff : isBadWeight weight = false ↔ weight.isFinite ∧ ¬ weight < 0 := by
  simp [isBadWeight]

/-- Settings are accepted if a connection can read, no weight is bad, and the level of the log is
known. -/
theorem validate_eq_ok_iff : config.validate = .ok () ↔ config.storage.readers ≠ 0 ∧
    (∀ entry ∈ config.analytics.wordWeights.toList, isBadWeight entry.2 = false) ∧
      config.observability.logLevel ∈ logLevels := by
  have hfault : config.validate = .ok () ↔ config.fault? = none := by
    unfold validate
    split <;> simp_all
  rw [hfault, fault?]
  by_cases hreaders : config.storage.readers = 0
  · simp [hreaders]
  · rw [if_neg hreaders]
    split
    · rename_i name weight hfound
      refine iff_of_false (by simp) fun ⟨_, hgood, _⟩ => ?_
      exact absurd (List.find?_some hfound) (by simp [hgood _ (List.mem_of_find?_eq_some hfound)])
    · rename_i hnone
      rw [and_iff_right hreaders]
      have hgood : ∀ entry ∈ config.analytics.wordWeights.toList, isBadWeight entry.2 = false := by
        simpa using hnone
      rw [and_iff_right hgood]
      simp

/-- A weight of words stands in settings that the check lets pass. -/
def Admits (weight : Float) : Prop :=
  ∃ config : Config, config.validate = .ok () ∧
    weight ∈ config.analytics.wordWeights.toList.map Prod.snd

/-- A weight is admitted if it is finite and not below zero. -/
theorem admits_iff : Admits weight ↔ weight.isFinite ∧ ¬ weight < 0 := by
  rw [← isBadWeight_eq_false_iff]
  constructor
  · rintro ⟨config, hvalid, hweight⟩
    obtain ⟨entry, hentry, rfl⟩ := List.mem_map.mp hweight
    exact (validate_eq_ok_iff.mp hvalid).2.1 entry hentry
  · intro hgood
    refine ⟨{ analytics.wordWeights := ⟨weight, weight, weight, weight, weight⟩ }, ?_,
      List.mem_cons_self⟩
    refine validate_eq_ok_iff.mpr ⟨Nat.succ_ne_zero _, ?_, List.contains_iff_mem.mp rfl⟩
    simpa [WordWeights.toList] using hgood

end Deliberation.Config
