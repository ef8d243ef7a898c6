import Deliberation.Proofs.Store.Deletion

/-!
What the deletion of an idea does to closures. The links of the idea are gone, and no other ones, so
the paths that are left are those that do not pass through it, neither on their way nor at an end.
-/

namespace Deliberation.Store

variable {now : Timestamp} {before after store : Store} {gone near far start : Id}

/-- A path of live links, not an empty one, leads from one idea to another without passing through a
third one. -/
def ReachesAround (store : Store) (gone start far : Id) : Prop :=
  Relation.TransGen (fun near far => store.Linked near far ∧ near ≠ gone ∧ far ≠ gone) start far

/-- After a deletion the links are those that do not touch the deleted idea. -/
theorem IsDeletion.linked_iff (h : before.IsDeletion now gone after) :
    after.Linked near far ↔ before.Linked near far ∧ near ≠ gone ∧ far ≠ gone := by
  constructor
  · rintro ⟨link, row, hrow, hlive, rfl, rfl⟩
    have hquiet : ∀ old, before.links.get? link = some old → old.isLive → old.source ≠ gone ∧
        old.target ≠ gone := by
      intro old hold holdLive
      by_contra htouches
      have hremoved :=
        h.removed link old hold holdLive (Decidable.or_iff_not_not_and_not.mpr htouches)
      obtain rfl := Option.some.inj (hrow.symm.trans hremoved)
      cases hlive
    have hold := (h.links link hquiet).symm.trans hrow
    exact ⟨⟨link, row, hold, hlive, rfl, rfl⟩, hquiet row hold hlive⟩
  · rintro ⟨⟨link, row, hrow, hlive, rfl, rfl⟩, hsource, htarget⟩
    refine ⟨link, row, ?_, hlive, rfl, rfl⟩
    rw [h.links link, hrow]
    intro old hold _
    obtain rfl := Option.some.inj (hrow.symm.trans hold)
    exact ⟨hsource, htarget⟩

theorem IsDeletion.transGen_linked_iff (h : before.IsDeletion now gone after) :
    Relation.TransGen after.Linked start far ↔ before.ReachesAround gone start far := by
  have hstep : after.Linked = fun near far => before.Linked near far ∧ near ≠ gone ∧
      far ≠ gone := by
    funext near far
    exact propext h.linked_iff
  rw [hstep, ReachesAround]

theorem ReachesAround.start_ne (h : store.ReachesAround gone start far) : start ≠ gone := by
  obtain ⟨_, hfirst, -⟩ := Relation.TransGen.head'_iff.mp h
  exact hfirst.2.1

theorem ReachesAround.end_ne (h : store.ReachesAround gone start far) : far ≠ gone := by
  obtain ⟨_, -, hlast⟩ := Relation.TransGen.tail'_iff.mp h
  exact hlast.2.2

/-- Where an idea cannot be reached, every path leads around it. -/
theorem reachesAround_iff (hstart : start ≠ gone)
    (hgone : ¬ Relation.TransGen store.Linked start gone) :
    store.ReachesAround gone start far ↔ Relation.TransGen store.Linked start far := by
  have hend {far : Id} (hpath : Relation.TransGen store.Linked start far) : far ≠ gone := by
    rintro rfl
    exact hgone hpath
  constructor
  · intro hpath
    exact Relation.TransGen.mono (fun _ _ hlink => And.left hlink) _ _ hpath
  · intro hpath
    induction hpath with
    | single hlink => exact .single ⟨hlink, hstart, hend (.single hlink)⟩
    | tail hpath hlink ih => exact ih.tail ⟨hlink, hend hpath, hend (hpath.tail hlink)⟩

/-- What is below an idea afterwards is what could be reached around the deleted one. -/
theorem IsDeletion.exists_descendants (h : before.IsDeletion now gone after)
    (hafter : after.Consistent) (strategy : ClosureStrategy) (start : Id) :
    ∃ below, (strategy.descendants after start false).result = .ok below ∧
      below.Pairwise (· < ·) ∧ ∀ far, far ∈ below ↔ before.ReachesAround gone start far := by
  obtain ⟨below, hbelow, hordered, hmem⟩ := hafter.exists_descendants strategy start
  exact ⟨below, hbelow, hordered, fun far => (hmem far).trans h.transGen_linked_iff⟩

/-- Nothing changes below an idea that the deleted one was not below. -/
theorem IsDeletion.descendants_of_unreached (h : before.IsDeletion now gone after)
    (hbefore : before.Consistent) (hafter : after.Consistent) (strategy : ClosureStrategy)
    (hstart : start ≠ gone) (hgone : ¬ before.Reaches .forward start gone) :
    (strategy.descendants after start false).result =
      (strategy.descendants before start false).result := by
  obtain ⟨below, hbelow, hordered, hmem⟩ := h.exists_descendants hafter strategy start
  obtain ⟨again, hagain, hclosure⟩ := expansion_result before .forward [start] false
  have hsame : before.IsClosureOf .forward [start] false below := by
    rw [hbefore.reaches_forward_iff] at hgone
    refine ⟨hordered, fun far => ?_⟩
    rw [hmem, reachesAround_iff hstart hgone, ← hbefore.reaches_forward_iff]
    simp
  rw [hbelow, strategy.descendants_result start, hagain, hsame.eq hclosure]

theorem IsDeletion.descendants_gone (h : before.IsDeletion now gone after)
    (hafter : after.Consistent) (strategy : ClosureStrategy) :
    (strategy.descendants after gone false).result = .ok [] := by
  obtain ⟨below, hbelow, -, hmem⟩ := h.exists_descendants hafter strategy gone
  have hnone : below = [] :=
    List.eq_nil_iff_forall_not_mem.mpr fun far hfar => ((hmem far).mp hfar).start_ne rfl
  rw [hbelow, hnone]

theorem IsDeletion.ancestors_gone (h : before.IsDeletion now gone after) (hafter : after.Consistent)
    (strategy : ClosureStrategy) : (strategy.ancestors after [gone] false).result = .ok [] := by
  obtain ⟨above, habove, -, hmem⟩ := expansion_result after .backward [gone] false
  have hnone : above = [] := by
    refine List.eq_nil_iff_forall_not_mem.mpr fun far hfar => ?_
    have hpath : Relation.TransGen after.Linked far gone := by
      rw [← hafter.reaches_backward_iff]
      simpa using (hmem far).mp hfar
    exact (h.transGen_linked_iff.mp hpath).end_ne rfl
  rw [strategy.ancestors_singleton_result gone, habove, hnone]

end Deliberation.Store
