import Deliberation.Aggregation.Ranking
import Deliberation.Proofs.Evaluation
import Mathlib.Data.List.Nodup

/-!
Rankings as strict orders. The numbers that contributors are compared by end with the agent, so no
two of them are in the same place, and what order they are given in makes no difference.
-/

namespace Deliberation.Ranking

variable {tieBreak : TieBreak} {one other : Contribution} {lines order : List Contribution}

theorem precedes_cons_iff {number first : Int} {rest more : List Int} :
    precedes (number :: rest) (first :: more) ↔ number < first ∨ number = first ∧
      precedes rest more := by
  by_cases hsame : number = first
  · simp [precedes, hsame]
  · simp [precedes, hsame]

theorem precedes_total (numbers others : List Int) :
    precedes numbers others ∨ precedes others numbers := by
  induction numbers generalizing others with
  | nil => exact Or.inl rfl
  | cons number rest ih =>
    cases others with
    | nil => exact Or.inr rfl
    | cons first more =>
      rw [precedes_cons_iff, precedes_cons_iff]
      rcases Int.lt_trichotomy number first with hlt | rfl | hgt
      · exact Or.inl (Or.inl hlt)
      · exact (ih more).imp (fun h => Or.inr ⟨rfl, h⟩) fun h => Or.inr ⟨rfl, h⟩
      · exact Or.inr (Or.inl hgt)

theorem precedes_antisymm {numbers others : List Int} (h : precedes numbers others)
    (hback : precedes others numbers) : numbers = others := by
  induction numbers generalizing others with
  | nil =>
    cases others with
    | nil => rfl
    | cons first more => cases hback
  | cons number rest ih =>
    cases others with
    | nil => cases h
    | cons first more =>
      rcases precedes_cons_iff.mp h with hlt | ⟨rfl, hrest⟩
      · rcases precedes_cons_iff.mp hback with hgt | ⟨rfl, -⟩
        · exact absurd hgt (Int.lt_asymm hlt)
        · exact absurd hlt (Int.lt_irrefl _)
      · rcases precedes_cons_iff.mp hback with hgt | ⟨-, hmore⟩
        · exact absurd hgt (Int.lt_irrefl _)
        · rw [ih hrest hmore]

theorem precedes_trans {numbers others more : List Int} (h : precedes numbers others)
    (hnext : precedes others more) : precedes numbers more := by
  induction numbers generalizing others more with
  | nil => rfl
  | cons number rest ih =>
    match others, more with
    | [], _ => cases h
    | _ :: _, [] => cases hnext
    | second :: _, third :: _ =>
      rw [precedes_cons_iff] at h hnext ⊢
      rcases h with hlt | ⟨rfl, hrest⟩
      · rcases hnext with hmore | ⟨rfl, -⟩
        · exact Or.inl (Int.lt_trans hlt hmore)
        · exact Or.inl hlt
      · exact hnext.imp_right fun ⟨hsame, hmore⟩ => ⟨hsame, ih hrest hmore⟩

/-- A contributor stands in front of another: by the pivots, else by the posts, else by what is left
to decide. -/
def Outranks (tieBreak : TieBreak) (one other : Contribution) : Prop :=
  other.pivots < one.pivots ∨ one.pivots = other.pivots ∧
    (other.posts < one.posts ∨ one.posts = other.posts ∧
      match tieBreak with
      | .firstContribution => one.firstPost < other.firstPost
      | .agentId => one.agent < other.agent)

/-- Contributors who differ as persons, and in their first posts, never tie. -/
theorem outranks_of_precedes (h : precedes (key tieBreak one) (key tieBreak other))
    (hagent : one.agent ≠ other.agent) (hfirst : one.firstPost ≠ other.firstPost) :
    Outranks tieBreak one other := by
  cases tieBreak with
  | firstContribution =>
    simpa [Outranks, key, tieKey, precedes_cons_iff, Int.ofNat_inj, hfirst] using h
  | agentId => simpa [Outranks, key, tieKey, precedes_cons_iff, Int.ofNat_inj, hagent] using h

theorem agent_eq_of_key (h : key tieBreak one = key tieBreak other) : one.agent = other.agent := by
  cases tieBreak with
  | firstContribution => simp_all [key, tieKey]
  | agentId => simp_all [key, tieKey]

theorem sorted_by_key (key : Contribution → List Int) (lines : List Contribution) :
    (lines.mergeSort fun a b => precedes (key a) (key b)).Pairwise fun a b => precedes (key a)
      (key b) := by
  apply List.pairwise_mergeSort
  · exact fun _ _ _ hab hbc => precedes_trans hab hbc
  · exact fun a b => by simpa using precedes_total (key a) (key b)

theorem byKey_eq_insertionSort (key : Contribution → List Int) (lines : List Contribution) :
    byKey key lines = (lines.insertionSort fun a b => precedes (key a) (key b)).map (·.agent) := by
  refine congrArg (List.map _) (mergeSort_eq_insertionSort ?_ ?_ lines)
  · exact fun _ _ _ hab hbc => precedes_trans hab hbc
  · exact fun a b => by simpa using precedes_total (key a) (key b)

/-- The ranking is the same for every order in which the contributions are given. -/
theorem contributors_eq_of_perm (hagents : (lines.map (·.agent)).Nodup) (h : order.Perm lines) :
    contributors tieBreak order = contributors tieBreak lines := by
  unfold contributors byKey
  refine congrArg (List.map _)
    (List.Perm.eq_of_pairwise ?_ (sorted_by_key _ order) (sorted_by_key _ lines) ?_)
  · intro a b ha hb hab hba
    have hsame := agent_eq_of_key (precedes_antisymm hab hba)
    rw [List.mem_mergeSort] at ha hb
    exact List.inj_on_of_nodup_map hagents (h.mem_iff.mp ha) hb hsame
  · exact (List.mergeSort_perm order _).trans (h.trans (List.mergeSort_perm lines _).symm)

/-- Contributors who never tie stand in one line, in which each outranks all behind. -/
theorem exists_ranked (hagents : (lines.map (·.agent)).Nodup)
    (hfirsts : (lines.map (·.firstPost)).Nodup) (tieBreak : TieBreak) :
    ∃ ranked : List Contribution, ranked.Perm lines ∧ ranked.Pairwise (Outranks tieBreak) ∧
      ∀ order, order.Perm lines → contributors tieBreak order = ranked.map (·.agent) := by
  refine ⟨_, List.mergeSort_perm lines _, ?_,
    fun order horder => contributors_eq_of_perm hagents horder⟩
  have hperm := List.mergeSort_perm lines fun a b => precedes (key tieBreak a) (key tieBreak b)
  have hdistinct := List.pairwise_map.mp ((hperm.map (·.agent)).nodup_iff.mpr hagents)
  have hothers := List.pairwise_map.mp ((hperm.map (·.firstPost)).nodup_iff.mpr hfirsts)
  refine ((sorted_by_key _ lines).and (hdistinct.and hothers)).imp ?_
  rintro a b ⟨hprecedes, hagent, hfirst⟩
  exact outranks_of_precedes hprecedes hagent hfirst

end Deliberation.Ranking
