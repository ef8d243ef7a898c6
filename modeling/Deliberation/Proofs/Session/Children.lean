import Deliberation.Proofs.Evaluation
import Deliberation.Proofs.Store.Children

/-!
The order of children after a history. A new link is inserted among the links of its source, and no
request changes the order of those that it leaves alone. A link that gets another place changes no
other list, and no closure.
-/

namespace Deliberation

open Store

def Place.one : Place := ⟨0x3ff0000000000000⟩

def Place.two : Place := ⟨0x4000000000000000⟩

namespace Session

/-- Whatever was asked of a new database before, the children of an idea are the ends of its links,
in the order of these. A new link is inserted right behind the last one whose number is not greater
than its own. A link that gets another place is taken out, and the link that takes its part is
inserted in the same way; other ideas have the same children by the same links, with one
modification more of the source where it is one of them, and neither the ends of the live links nor
the closures change. When an idea is moved, all links to it are taken out, and the new one is
inserted in the same way. -/
theorem children_after_history (medium : Medium) (watcher : Watcher) (history : History)
    {session : Session} (hsession : carryOut history (start medium watcher) = session) :
    (∀ idea, ∃ children, session.store.children idea = .ok children ∧
      children.map (·.id) = (session.store.childLinks idea).map (·.2.target)) ∧
    (∀ (now : Timestamp) (new : NewLink) (link : Id) (after : Session),
      perform now (.createLink new) session = (.ok link, after) →
        session.store.InsertsChild now new link after.store) ∧
    (∀ (now : Timestamp) (old : Id) (order : Place) (link : Id) (after : Session),
      perform now (.reorderLink old order) session = (.ok link, after) →
        ∃ row, session.store.ReordersChild now old row order link after.store) ∧
    ∀ (now : Timestamp) (moved parent : Id) (order : Place) (link : Id) (after : Session),
      perform now (.moveIdea moved parent order) session = (.ok link, after) →
        session.store.MovesChild now moved parent order link after.store := by
  have hsound : session.store.Sound := hsession ▸ storeAfter_sound medium watcher history
  have horderly : session.store.IsOrderly := hsession ▸ storeAfter_isOrderly medium watcher history
  have hlegible : session.store.Legible := hsession ▸ storeAfter_legible medium watcher history
  have hversions : session.store.TellsLiveVersions :=
    hsession ▸ storeAfter_tellsLiveVersions medium watcher history
  refine ⟨fun idea => ?_, fun now new link after hdone => ?_,
    fun now old order link after hdone => ?_, fun now moved parent order link after hdone => ?_⟩
  · obtain ⟨children, hchildren⟩ := hlegible.exists_children hversions idea
    exact ⟨children, hchildren, map_id_of_children hchildren⟩
  · obtain ⟨receipt, rfl, heffect, -⟩ := exists_effect_after_history hsession hdone
    exact heffect.insertsChild hsound horderly
  · obtain ⟨receipt, rfl, heffect, -⟩ := exists_effect_after_history hsession hdone
    exact heffect.reordersChild hsound horderly hlegible hversions
  · obtain ⟨receipt, rfl, heffect, -⟩ := exists_effect_after_history hsession hdone
    exact heffect.movesChild hsound horderly

/-- A discussion with four ideas. Two links lead from the first idea to the second one, both in
place one, and one leads to the third idea, in place two. The second idea leads to the fourth one,
and the third idea to the second one. -/
def breeding : History := [
  (⟨0, 0⟩, .createDiscussion { slug := "energy", topic := "Energy" }),
  (⟨1, 0⟩, .createIdea { discussion := 1 }),
  (⟨2, 0⟩, .createIdea { discussion := 1 }),
  (⟨3, 0⟩, .createIdea { discussion := 1 }),
  (⟨4, 0⟩, .createLink { source := 1, target := 2, order := .one }),
  (⟨5, 0⟩, .createLink { source := 1, target := 3, order := .two }),
  (⟨6, 0⟩, .createLink { source := 1, target := 2, order := .one }),
  (⟨7, 0⟩, .createLink { source := 2, target := 4 }),
  (⟨8, 0⟩, .createLink { source := 3, target := 2 })]

def bred : Session := carryOut breeding (start .memory .nobody)

/-- The new link stands behind the older ones in place one, and in front of place two. -/
theorem bred_gains_fourth : ∃ after,
    perform ⟨9, 0⟩ (.createLink { source := 1, target := 4, order := .one }) bred = (.ok 6, after) ∧
      (after.store.childLinks 1).map (·.1) = [1, 3, 6, 2] := by
  refine exists_after_of_ok_and ?_
  rw [childLinks_eq_insertionSort]
  decide +kernel

theorem bred_reorders_first : ∃ after, perform ⟨9, 0⟩ (.reorderLink 1 .one) bred = (.ok 6, after) ∧
    (after.store.childLinks 1).map (·.1) = [3, 6, 2] := by
  refine exists_after_of_ok_and ?_
  rw [childLinks_eq_insertionSort]
  decide +kernel

theorem bred_moves_second : ∃ after, perform ⟨9, 0⟩ (.moveIdea 2 1 .one) bred = (.ok 6, after) ∧
    (after.store.childLinks 1).map (·.1) = [6, 2] ∧ (after.store.childLinks 3).map (·.1) = [] := by
  refine exists_after_of_ok_and ?_
  simp only [perform, Request.perform, moveIdea, ascending_eq_insertionSort,
    childLinks_eq_insertionSort]
  decide +kernel

/-- A link stands behind older ones in the same place, also if it takes the part of one of them. A
move leaves one link in the place of two. -/
theorem bred_orders : (bred.store.childLinks 1).map (·.1) = [1, 3, 2] ∧
    (∃ after, bred.store.InsertsChild ⟨9, 0⟩ { source := 1, target := 4, order := .one } 6 after ∧
      (after.childLinks 1).map (·.1) = [1, 3, 6, 2]) ∧
    (∃ row after, bred.store.ReordersChild ⟨9, 0⟩ 1 row .one 6 after ∧
      (after.childLinks 1).map (·.1) = [3, 6, 2]) ∧
    ∃ after, bred.store.MovesChild ⟨9, 0⟩ 2 1 .one 6 after ∧
      (after.childLinks 1).map (·.1) = [6, 2] ∧ after.childLinks 3 = [] := by
  have hlinks : (bred.store.childLinks 1).map (·.1) = [1, 3, 2] := by
    rw [childLinks_eq_insertionSort]
    decide +kernel
  have hbred : carryOut breeding (start .memory .nobody) = bred := rfl
  obtain ⟨-, hcreate, hreorder, hmove⟩ := children_after_history .memory .nobody breeding hbred
  obtain ⟨created, hcreated, hgained⟩ := bred_gains_fourth
  obtain ⟨reordered, hreordered, hplaced⟩ := bred_reorders_first
  obtain ⟨moved, hmoved, hleft, hlost⟩ := bred_moves_second
  obtain ⟨row, hrow⟩ := hreorder _ _ _ _ _ hreordered
  exact ⟨hlinks, ⟨created.store, hcreate _ _ _ _ hcreated, hgained⟩,
    ⟨row, reordered.store, hrow, hplaced⟩,
    moved.store, hmove _ _ _ _ _ _ hmoved, hleft, List.map_eq_nil_iff.mp hlost⟩

/-- When the link from the second idea to the fourth one gets another place, a modification of the
second one is counted. Whoever asks for the children of the first idea is told so. -/
theorem bred_reorder_seen_above :
    ∃ after, perform ⟨9, 0⟩ (.reorderLink 4 .two) bred = (.ok 6, after) ∧
      (bred.store.links.get? 4).map (·.source) = some 2 ∧
        after.store.children 1 ≠ bred.store.children 1 := by
  have hbefore : (bred.store.children 1).map (List.map (·.version)) = .ok [2, 2, 2] := by
    rw [children, childLinks_eq_insertionSort]
    decide +kernel
  have hreordered : ∃ after, perform ⟨9, 0⟩ (.reorderLink 4 .two) bred = (.ok 6, after) ∧
      (after.store.children 1).map (List.map (·.version)) = .ok [3, 3, 2] := by
    refine exists_after_of_ok_and ?_
    rw [children, childLinks_eq_insertionSort]
    decide +kernel
  have hsource : (bred.store.links.get? 4).map (·.source) = some 2 := by decide +kernel
  obtain ⟨after, hdone, hafter⟩ := hreordered
  refine ⟨after, hdone, hsource, fun hsame => ?_⟩
  rw [hsame, hbefore] at hafter
  cases hafter

end Session

end Deliberation
