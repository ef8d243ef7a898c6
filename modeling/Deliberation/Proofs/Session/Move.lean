import Deliberation.Proofs.Closure.Relink
import Deliberation.Proofs.Session.Deletion
import Deliberation.Proofs.Store.Move

/-!
Moves after a history. A move leaves one link to the idea, whatever led to it before, and it counts
each idea that gains or loses a link once. Where it does not put the idea below itself, every idea
can be reached afterwards that could be reached before.
-/

namespace Deliberation

open Store

namespace Session

variable {now : Timestamp} {moved parent link : Id} {order : Place} {session after : Session}

/-- Moving an idea changes, whatever was asked of a new database before, no rows but these: every
live link that led to the idea gets a tombstone, a new one from the new parent is the only one that
leads to it, and the versions of the new parent and of each other idea that a link led from are one
higher, the moved idea itself left aside. The new link is younger than all other ones. The former
parents are told in the order of their ids, and then the new one, each with the version that it has
now. -/
theorem move_after_history (medium : Medium) (watcher : Watcher) (history : History)
    (hsession : carryOut history (start medium watcher) = session)
    (hdone : perform now (.moveIdea moved parent order) session = (.ok link, after)) :
    session.store.CanMove moved parent order ∧
      session.store.IsMove now moved parent order after.store ∧
    after.store.inbound moved = [(link, .ofNew now { source := parent, target := moved, order })] ∧
    (∀ earlier row, session.store.links.get? earlier = some row → earlier < link) ∧
    ∃ (told : List (Id × Nat)) (version : Nat), (told.map (·.1)).Pairwise (· < ·) ∧
      (∀ former, former ∈ told.map (·.1) ↔ session.store.IsParentOf former moved ∧
        former ≠ parent) ∧
      (∀ entry ∈ told ++ [(parent, version)], ∃ row,
        after.store.ideas.get? entry.1 = some row ∧ row.version = .whole entry.2) ∧
      (watcher ≠ .nobody → after.noticed =
        session.noticed ++ (told ++ [(parent, version)]).map fun entry => .modified entry.1
        entry.2) := by
  have hconsistent : session.store.Consistent :=
    hsession ▸ storeAfter_consistent medium watcher history
  have hversions : session.store.TellsLiveVersions :=
    hsession ▸ storeAfter_tellsLiveVersions medium watcher history
  obtain ⟨receipt, hreply, heffect, hnoticed⟩ := exists_effect_after_history hsession hdone
  obtain ⟨hcan, hmove, hlink, told, version, hformer, htold, hchanges⟩ :=
    heffect.isMove hconsistent hversions
  obtain rfl : link = session.store.links.nextId := hreply.symm.trans hlink
  refine ⟨hcan, hmove, hmove.inbound_eq, fun _ _ hrow => Table.lt_nextId hrow, told, version, ?_,
    fun former => ?_, htold, fun hwatched => ?_⟩
  · rw [hformer]
    exact ascending_pairwise _
  · rw [hformer]
    exact mem_formerParents_iff_isParentOf
  · rw [hnoticed hwatched, hchanges]
    rfl

theorem crowded_moves_second : ∃ after,
    perform ⟨15, 0⟩ (.moveIdea 2 5 .negativeZero) crowded = (.ok 10, after) ∧
      after.noticed = crowded.noticed ++ [.modified 1 5, .modified 3 3, .modified 5 5] := by
  refine exists_after_of_ok_and ?_
  simp only [perform, Request.perform, moveIdea, ascending_eq_insertionSort]
  decide +kernel

/-- The first and the third idea lose a child, and the fifth one gains it; the second one loses its
link to itself and is not told. The new link is stored with the other zero. -/
theorem crowded_move :
    ∃ after, perform ⟨15, 0⟩ (.moveIdea 2 5 .negativeZero) crowded = (.ok 10, after) ∧
      crowded.store.IsMove ⟨15, 0⟩ 2 5 .negativeZero after.store ∧
      after.store.inbound 2 = [(10, .ofNew ⟨15, 0⟩ { source := 5, target := 2, order := .zero })] ∧
      after.noticed = crowded.noticed ++ [.modified 1 5, .modified 3 3, .modified 5 5] := by
  have hcrowded : carryOut crowding (start .memory .recording) = crowded := rfl
  obtain ⟨after, hdone, hnoticed⟩ := crowded_moves_second
  obtain ⟨-, hmove, hinbound, -⟩ := move_after_history .memory .recording crowding hcrowded hdone
  exact ⟨after, hdone, hmove, hinbound, hnoticed⟩

/-- Below an idea that has been moved there is what was there before. If the new parent was not
below it, whatever the new parent is below has all below it that it had before, and all that is
below the moved idea; and this is all. -/
theorem closures_after_move (medium : Medium) (watcher : Watcher) (history : History)
    (hsession : carryOut history (start medium watcher) = session)
    (hdone : perform now (.moveIdea moved parent order) session = (.ok link, after))
    (strategy : ClosureStrategy) (upper : Id) :
    ∃ above below, (strategy.descendants session.store upper true).result = .ok above ∧
      (strategy.descendants session.store moved true).result = .ok below ∧
      (strategy.descendants after.store moved true).result = .ok below ∧
      (parent ∈ above → parent ∉ below →
        (strategy.descendants after.store upper true).result =
          .ok (ascending (above ++ below))) := by
  have hsound : session.store.Sound := hsession ▸ storeAfter_sound medium watcher history
  obtain ⟨_, -, heffect, -⟩ := exists_effect_after_history hsession hdone
  obtain ⟨-, hrelinks⟩ := heffect.relinks_moveIdea hsound
  exact hrelinks.exists_descendants_moved rfl strategy upper

/-- The fifth idea has gained all that is below the second one. -/
theorem crowded_closures_moved :
    ∃ after, perform ⟨15, 0⟩ (.moveIdea 2 5 .negativeZero) crowded = (.ok 10, after) ∧
      (ClosureStrategy.native.descendants crowded.store 5 true).result = .ok [4, 5] ∧
      (ClosureStrategy.native.descendants crowded.store 2 true).result = .ok [2, 3, 4] ∧
      (ClosureStrategy.native.descendants after.store 2 true).result = .ok [2, 3, 4] ∧
      (ClosureStrategy.native.descendants after.store 5 true).result = .ok [2, 3, 4, 5] := by
  have hfifth : (ClosureStrategy.native.descendants crowded.store 5 true).result = .ok [4, 5] := by
    rw [ClosureStrategy.descendants_native_eq]
    decide +kernel
  have hsecond : (ClosureStrategy.native.descendants crowded.store 2 true).result =
      .ok [2, 3, 4] := by
    rw [ClosureStrategy.descendants_native_eq]
    decide +kernel
  have hcrowded : carryOut crowding (start .memory .recording) = crowded := rfl
  obtain ⟨after, hdone, -⟩ := crowded_moves_second
  obtain ⟨above, below, habove, hbelow, hstays, hgains⟩ :=
    closures_after_move .memory .recording crowding hcrowded hdone .native 5
  obtain rfl := Except.ok.inj (habove.symm.trans hfifth)
  obtain rfl := Except.ok.inj (hbelow.symm.trans hsecond)
  have hunion : ascending ([4, 5] ++ [2, 3, 4]) = [2, 3, 4, 5] := by
    rw [ascending_eq_insertionSort]
    decide +kernel
  refine ⟨after, hdone, hfifth, hsecond, hstays, ?_⟩
  rw [hgains (by decide) (by decide), hunion]

end Session

end Deliberation
