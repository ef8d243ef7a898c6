import Deliberation.Proofs.Closure.Relink
import Deliberation.Proofs.Session.Deletion

/-!
Closures after a link has been added or removed. A new link adds what it leads to, and nothing else;
a link that has a twin can be removed without a trace in any closure.
-/

namespace Deliberation

open Store

namespace Session

/-- Whatever was asked of a new database before: a new link adds its target, and what is below that,
to what is below its source and below all that the source is below; nothing changes below other
ideas. Removing a link changes no closure, in either direction, if another live link has the same
ends. Links may lead from an idea to itself, and they may close a cycle. -/
theorem closures_after_relinking (medium : Medium) (watcher : Watcher) (history : History)
    {session : Session} (hsession : carryOut history (start medium watcher) = session) :
    (∀ (now : Timestamp) (new : NewLink) (link : Id) (after : Session),
      perform now (.createLink new) session = (.ok link, after) →
      ∀ (strategy : ClosureStrategy) (start : Id), ∃ below beyond,
        (strategy.descendants session.store start false).result = .ok below ∧
        (strategy.descendants session.store new.target false).result = .ok beyond ∧
        (strategy.descendants after.store start false).result = .ok
          (if start = new.source ∨ new.source ∈ below then ascending (below ++ new.target :: beyond)
            else below)) ∧
    ∀ (now : Timestamp) (link : Id) (after : Session), perform now (.tombstoneLink link) session =
      (.ok (), after) → session.store.HasTwin link → session.store.SameClosures after.store := by
  have hsound : session.store.Sound := hsession ▸ storeAfter_sound medium watcher history
  refine ⟨fun now new link after hdone strategy start => ?_, fun now link after hdone htwin => ?_⟩
  · obtain ⟨_, -, heffect, -⟩ := exists_effect_after_history hsession hdone
    obtain ⟨-, hrelinks⟩ := heffect.relinks_createLink hsound
    exact hrelinks.exists_descendants_added strategy start
  · obtain ⟨_, -, heffect, -⟩ := exists_effect_after_history hsession hdone
    exact (heffect.relinks_tombstoneLink hsound).sameClosures_of_twin htwin

theorem crowded_links_back : ∃ after,
    perform ⟨15, 0⟩ (.createLink { source := 3, target := 1 }) crowded = (.ok 10, after) :=
  exists_after_of_ok (by decide +kernel)

theorem crowded_loses_twin :
    ∃ after, perform ⟨15, 0⟩ (.tombstoneLink 1) crowded = (.ok (), after) :=
  exists_after_of_ok (by decide +kernel)

theorem crowded_hasTwin : crowded.store.HasTwin 1 := by
  have hlink : (crowded.store.links.get? 1).map (fun row => (row.source, row.target)) =
      some (1, 2) := by
    decide +kernel
  have htwin : (crowded.store.links.get? 2).map (fun row => (row.isLive, row.source, row.target)) =
      some (true, 1, 2) := by decide +kernel
  obtain ⟨row, hrow, hends⟩ := Option.map_eq_some_iff.mp hlink
  obtain ⟨other, hother, hsame⟩ := Option.map_eq_some_iff.mp htwin
  obtain ⟨hsource, htarget⟩ := Prod.mk.inj hends
  obtain ⟨hlive, hends⟩ := Prod.mk.inj hsame
  obtain ⟨hsourceToo, htargetToo⟩ := Prod.mk.inj hends
  exact ⟨2, row, other, hrow, hother, hlive, by decide, hsourceToo.trans hsource.symm,
    htargetToo.trans htarget.symm⟩

/-- A link back to the first idea closes a cycle through the third one, and the fifth one is not on
it. The first idea has two links to the second one and can do without one of them. -/
theorem crowded_relinked : ∃ linked unlinked,
    perform ⟨15, 0⟩ (.createLink { source := 3, target := 1 }) crowded = (.ok 10, linked) ∧
    (ClosureStrategy.native.descendants crowded.store 3 false).result = .ok [2, 3, 4] ∧
    (ClosureStrategy.native.descendants linked.store 3 false).result = .ok [1, 2, 3, 4, 5] ∧
    (ClosureStrategy.native.descendants crowded.store 5 false).result = .ok [4] ∧
    (ClosureStrategy.native.descendants linked.store 5 false).result = .ok [4] ∧
    perform ⟨15, 0⟩ (.tombstoneLink 1) crowded = (.ok (), unlinked) ∧ crowded.store.HasTwin 1 ∧
    crowded.store.SameClosures unlinked.store := by
  have hfirst : (ClosureStrategy.native.descendants crowded.store 1 false).result =
      .ok [2, 3, 4, 5] := by
    rw [ClosureStrategy.descendants_native_eq]
    decide +kernel
  have hthird : (ClosureStrategy.native.descendants crowded.store 3 false).result =
      .ok [2, 3, 4] := by
    rw [ClosureStrategy.descendants_native_eq]
    decide +kernel
  have hfifth : (ClosureStrategy.native.descendants crowded.store 5 false).result = .ok [4] := by
    rw [ClosureStrategy.descendants_native_eq]
    decide +kernel
  have hunion : ascending ([2, 3, 4] ++ 1 :: [2, 3, 4, 5]) = [1, 2, 3, 4, 5] := by
    rw [ascending_eq_insertionSort]
    decide +kernel
  have hcrowded : carryOut crowding (start .memory .recording) = crowded := rfl
  obtain ⟨hadded, hremoved⟩ := closures_after_relinking .memory .recording crowding hcrowded
  obtain ⟨linked, hlinked⟩ := crowded_links_back
  obtain ⟨unlinked, hunlinked⟩ := crowded_loses_twin
  obtain ⟨below, beyond, hbelow, hbeyond, hgains⟩ := hadded _ _ _ _ hlinked .native 3
  obtain rfl := Except.ok.inj (hbelow.symm.trans hthird)
  obtain rfl := Except.ok.inj (hbeyond.symm.trans hfirst)
  obtain ⟨beside, _, hbeside, -, hstays⟩ := hadded _ _ _ _ hlinked .native 5
  obtain rfl := Except.ok.inj (hbeside.symm.trans hfifth)
  rw [if_pos (by decide), hunion] at hgains
  rw [if_neg (by decide)] at hstays
  exact ⟨linked, unlinked, hlinked, hthird, hgains, hfifth, hstays, hunlinked, crowded_hasTwin,
    hremoved _ _ _ hunlinked crowded_hasTwin⟩

end Session

end Deliberation
