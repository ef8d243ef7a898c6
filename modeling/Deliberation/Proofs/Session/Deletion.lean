import Deliberation.Proofs.Closure.Deletion
import Deliberation.Proofs.Evaluation
import Deliberation.Proofs.Session.Record

/-!
Deletions after a history. Deleting an idea changes the rows that it has to change and no other
ones, and watchers are told of the idea and of its parents. In the closures the idea is missing
afterwards with all that could be reached by way of it alone.
-/

namespace Deliberation

open Store

namespace Session

/-- After any history, deleting a live idea is a deletion and nothing else, and tells of it as it
should. -/
theorem isDeletion_after_history {medium : Medium} {watcher : Watcher} {history : History}
    {now : Timestamp} {gone : Id} {session after : Session}
    (hsession : carryOut history (start medium watcher) = session)
    (hlive : session.store.isLiveIdea gone)
    (hdone : perform now (.tombstoneIdea gone) session = (.ok (), after)) :
    session.store.IsDeletion now gone after.store ∧
    (∃ row, session.store.ideas.get? gone = some row ∧ row.kind ≠ .legible .root) ∧
    ∃ told : List (Id × Nat), told.map (·.1) = session.store.linkedParents gone ∧
      (∀ entry ∈ told, ∃ row, after.store.ideas.get? entry.1 = some row ∧
        row.version = .whole entry.2) ∧
      (watcher ≠ .nobody →
        after.noticed = session.noticed ++ .deleted gone :: told.map fun entry => .modified entry.1
        entry.2) := by
  have hconsistent : session.store.Consistent :=
    hsession ▸ storeAfter_consistent medium watcher history
  have hversions : session.store.TellsLiveVersions :=
    hsession ▸ storeAfter_tellsLiveVersions medium watcher history
  obtain ⟨receipt, -, heffect, hnoticed⟩ := exists_effect_after_history hsession hdone
  obtain ⟨hdeletion, hkind, told, hparents, htold, hchanges⟩ :=
    heffect.isDeletion hconsistent hversions hlive
  refine ⟨hdeletion, hkind, told, hparents, htold, fun hwatched => ?_⟩
  rw [hnoticed hwatched, hchanges]
  rfl

/-- Deleting a live idea changes, whatever was asked of a new database before, no rows but these:
the idea gets a tombstone and its version is one higher; each of its live links gets a tombstone;
and the version of each other idea that such a link led from is one higher. The deletion is told
first, then these parents in the order of their ids, each with the version that it has now. Another
request to delete the idea succeeds at any later time, as long as the version of the idea can be
told. It changes nothing, and nothing is told of it. -/
theorem deletion_after_history (medium : Medium) (watcher : Watcher) (history : History)
    {now : Timestamp} {gone : Id} {session after : Session}
    (hsession : carryOut history (start medium watcher) = session)
    (hlive : session.store.isLiveIdea gone)
    (hdone : perform now (.tombstoneIdea gone) session = (.ok (), after)) :
    session.store.IsDeletion now gone after.store ∧
    (∃ told : List (Id × Nat), (told.map (·.1)).Pairwise (· < ·) ∧
      (∀ parent, parent ∈ told.map (·.1) ↔ session.store.IsParentOf parent gone) ∧
      (∀ entry ∈ told, ∃ row, after.store.ideas.get? entry.1 = some row ∧
        row.version = .whole entry.2) ∧
      (watcher ≠ .nobody →
        after.noticed = session.noticed ++ .deleted gone ::
          told.map fun entry => .modified entry.1 entry.2)) ∧
    ∀ (more : History) (later : Timestamp) (row : IdeaRow) (version : Nat),
      (carryOut more after).store.ideas.get? gone = some row → row.version = .whole version →
        version < 4294967296 →
      ∃ again, perform later (.tombstoneIdea gone) (carryOut more after) = (.ok (), again) ∧
        again.store = (carryOut more after).store ∧
          again.noticed = (carryOut more after).noticed := by
  obtain ⟨hdeletion, ⟨old, hold, hkind⟩, told, hparents, htold, hnoticed⟩ :=
    isDeletion_after_history hsession hlive hdone
  refine ⟨hdeletion, ⟨told, ?_, fun parent => ?_, htold, hnoticed⟩, ?_⟩
  · rw [hparents]
    exact ascending_pairwise _
  · rw [hparents]
    exact mem_linkedParents_iff_isParentOf
  · intro more later row version hrow hversion hfits
    have hafter := carryOut_concat hsession hdone
    have hsound : after.store.Sound := hafter ▸ storeAfter_sound medium watcher _
    have hlegible : (carryOut more after).store.Legible := by
      rw [← hafter, ← carryOut_append]
      exact storeAfter_legible medium watcher _
    obtain ⟨again, _, hagain, -, -, hdead⟩ := hdeletion.deleted
    obtain rfl := Option.some.inj (hold.symm.trans hagain)
    obtain ⟨last, hlast, hsame⟩ := (carryOut_continuesAs more hsound).ideas gone _ hdead
    obtain rfl := Option.some.inj (hlast.symm.trans hrow)
    have hstays := hsame rfl
    refine perform_idle (perform_tombstone_again hlegible hrow ?_ ?_ hversion hfits) rfl
    · rw [hstays]
      rfl
    · rw [hstays]
      exact hkind

/-- A discussion with five ideas. Two links lead from the first idea to the second one, which leads
to itself, to the third one and back from there, and to the fourth one. The fifth idea has lost its
link to the second one; the first idea leads to it, and it leads to the fourth one. -/
def crowding : History := [
  (⟨0, 0⟩, .createDiscussion { slug := "energy", topic := "Energy" }),
  (⟨1, 0⟩, .createIdea { discussion := 1 }),
  (⟨2, 0⟩, .createIdea { discussion := 1 }),
  (⟨3, 0⟩, .createIdea { discussion := 1 }),
  (⟨4, 0⟩, .createIdea { discussion := 1 }),
  (⟨5, 0⟩, .createLink { source := 1, target := 2 }),
  (⟨6, 0⟩, .createLink { source := 1, target := 2 }),
  (⟨7, 0⟩, .createLink { source := 2, target := 2 }),
  (⟨8, 0⟩, .createLink { source := 2, target := 3 }),
  (⟨9, 0⟩, .createLink { source := 3, target := 2 }),
  (⟨10, 0⟩, .createLink { source := 2, target := 4 }),
  (⟨11, 0⟩, .createLink { source := 5, target := 2 }),
  (⟨12, 0⟩, .tombstoneLink 7),
  (⟨13, 0⟩, .createLink { source := 1, target := 5 }),
  (⟨14, 0⟩, .createLink { source := 5, target := 4 })]

def crowded : Session := carryOut crowding (start .memory .recording)

theorem crowded_second_isLive : crowded.store.isLiveIdea 2 := by decide +kernel

/-- What is left of the session can be told: what it has noticed, and what is still below the first
idea. -/
theorem crowded_loses_second :
    ∃ after, perform ⟨15, 0⟩ (.tombstoneIdea 2) crowded = (.ok (), after) ∧
      after.noticed = crowded.noticed ++ [.deleted 2, .modified 1 5, .modified 3 3] ∧
      (ClosureStrategy.native.descendants after.store 1 false).result = .ok [4, 5] := by
  refine exists_after_of_ok_and ?_
  simp only [ClosureStrategy.descendants_native_eq, perform, Request.perform, tombstoneIdea,
    cascade, linkedParents, ascending_eq_insertionSort]
  decide +kernel

/-- The first and the third idea lose a child and are told; deleting the second one again makes no
difference. -/
theorem crowded_deletion :
    ∃ after again, perform ⟨15, 0⟩ (.tombstoneIdea 2) crowded = (.ok (), after) ∧
      crowded.store.IsDeletion ⟨15, 0⟩ 2 after.store ∧
      after.noticed = crowded.noticed ++ [.deleted 2, .modified 1 5, .modified 3 3] ∧
      perform ⟨16, 0⟩ (.tombstoneIdea 2) after = (.ok (), again) ∧ again.store = after.store ∧
      again.noticed = after.noticed := by
  have hstored : (crowded.store.ideas.get? 2).map (·.version.read 10) = some (.ok 4) := by
    decide +kernel
  have hcrowded : carryOut crowding (start .memory .recording) = crowded := rfl
  obtain ⟨after, hdone, hnoticed, -⟩ := crowded_loses_second
  obtain ⟨hdeletion, -, hlater⟩ :=
    deletion_after_history .memory .recording crowding hcrowded crowded_second_isLive hdone
  obtain ⟨row, version, hrow, -, hversion, hgone⟩ := hdeletion.deleted
  rw [hrow, Option.map_some, hversion] at hstored
  obtain ⟨rfl, -⟩ := Version.read_whole_eq_ok_iff.mp (Option.some.inj hstored)
  obtain ⟨again, hagain, hsame, hsilent⟩ := hlater [] ⟨16, 0⟩ _ (4 + 1) hgone rfl (by decide)
  exact ⟨after, again, hdone, hdeletion, hnoticed, hagain, hsame, hsilent⟩

/-- Deleting a live idea takes it out of the closures, whatever was asked of a new database before.
Below any other idea there is afterwards what could be reached from it by a path of live links that
does not pass through the deleted one; where the deleted one was not below it, that is what was
there before. Nothing is below the deleted idea any more, and nothing is above it. -/
theorem closures_after_deletion (medium : Medium) (watcher : Watcher) (history : History)
    {now : Timestamp} {gone : Id} {session after : Session}
    (hsession : carryOut history (start medium watcher) = session)
    (hlive : session.store.isLiveIdea gone)
    (hdone : perform now (.tombstoneIdea gone) session = (.ok (), after))
    (strategy : ClosureStrategy) :
    (∀ root, root ≠ gone →
      ∃ below, (strategy.descendants after.store root false).result = .ok below ∧
      below.Pairwise (· < ·) ∧ (∀ far, far ∈ below ↔ session.store.ReachesAround gone root far) ∧
      (¬ session.store.Reaches .forward root gone →
        (strategy.descendants session.store root false).result = .ok below)) ∧
    (strategy.descendants after.store gone false).result = .ok [] ∧
    (strategy.ancestors after.store [gone] false).result = .ok [] := by
  obtain ⟨hdeletion, -⟩ := isDeletion_after_history hsession hlive hdone
  have hbefore : session.store.Consistent := hsession ▸ storeAfter_consistent medium watcher history
  have hafter : after.store.Consistent :=
    carryOut_concat hsession hdone ▸ storeAfter_consistent medium watcher _
  refine ⟨fun root hroot => ?_, hdeletion.descendants_gone hafter strategy,
    hdeletion.ancestors_gone hafter strategy⟩
  obtain ⟨below, hbelow, hordered, hmem⟩ := hdeletion.exists_descendants hafter strategy root
  refine ⟨below, hbelow, hordered, hmem, fun hgone => ?_⟩
  exact (hdeletion.descendants_of_unreached hbefore hafter strategy hroot hgone).symm.trans hbelow

/-- The third idea could be reached from the first one by way of the second one alone; the fourth
one is still there, by way of the fifth one, below which nothing has changed. -/
theorem crowded_closures : ∃ after, perform ⟨15, 0⟩ (.tombstoneIdea 2) crowded = (.ok (), after) ∧
    (ClosureStrategy.native.descendants crowded.store 1 false).result = .ok [2, 3, 4, 5] ∧
    (ClosureStrategy.native.descendants after.store 1 false).result = .ok [4, 5] ∧
    crowded.store.ReachesAround 2 1 4 ∧ ¬ crowded.store.ReachesAround 2 1 3 ∧
    (ClosureStrategy.native.descendants after.store 5 false).result = .ok [4] ∧
    (ClosureStrategy.native.descendants after.store 2 false).result = .ok [] ∧
    (ClosureStrategy.native.ancestors after.store [2] false).result = .ok [] := by
  have hbefore : (ClosureStrategy.native.descendants crowded.store 1 false).result =
      .ok [2, 3, 4, 5] := by
    rw [ClosureStrategy.descendants_native_eq]
    decide +kernel
  have hfifth : (ClosureStrategy.native.descendants crowded.store 5 false).result = .ok [4] := by
    rw [ClosureStrategy.descendants_native_eq]
    decide +kernel
  have hcrowded : carryOut crowding (start .memory .recording) = crowded := rfl
  obtain ⟨after, hdone, -, hfirst⟩ := crowded_loses_second
  obtain ⟨hothers, hbelow, habove⟩ :=
    closures_after_deletion .memory .recording crowding hcrowded crowded_second_isLive hdone .native
  obtain ⟨below, hresult, -, hmem, -⟩ := hothers 1 (by decide)
  obtain rfl := Except.ok.inj (hresult.symm.trans hfirst)
  have hunreached : ¬ crowded.store.Reaches .forward 5 2 := by
    obtain ⟨ids, hids, -, hreached⟩ := expansion_result crowded.store .forward [5] false
    obtain rfl :=
      Except.ok.inj (hfifth.symm.trans ((ClosureStrategy.native.descendants_result 5).trans hids))
    simpa using hreached 2
  obtain ⟨same, hsame, -, -, hunchanged⟩ := hothers 5 (by decide)
  obtain rfl := Except.ok.inj (hfifth.symm.trans (hunchanged hunreached))
  exact ⟨after, hdone, hbefore, hfirst, (hmem 4).mp (by decide), mt (hmem 3).mpr (by decide), hsame,
    hbelow, habove⟩

end Session

end Deliberation
