import Deliberation.Proofs.Evaluation
import Deliberation.Proofs.Store.Siblings

/-!
Siblings after a history. The search goes through all links of all parents, and still tells every
sibling once, at the place of the first way to it, and tells an idea to its siblings.
-/

namespace Deliberation.Session

open Store

/-- Whatever was asked of a new database before: the siblings of an idea are the other live ideas
that have a live parent in common with it, each told once and as it is stored. They stand by the
first link to the idea from a parent that they share, and below one parent in the order of its
children. If one idea is told to another, this one is told to the other too. -/
theorem siblings_after_history (medium : Medium) (watcher : Watcher) (history : History)
    (idea : Id) :
    let store := storeAfter medium watcher history
    ∃ siblings, store.siblings idea = .ok siblings ∧ store.ListsSiblings idea siblings ∧
      ∀ other, ∃ others, store.siblings other = .ok others ∧
        (other ∈ siblings.map (·.id) ↔ idea ∈ others.map (·.id)) := by
  intro store
  have hconsistent : store.Consistent := storeAfter_consistent medium watcher history
  have hlists := hconsistent.listsSiblings (storeAfter_isOrderly medium watcher history)
    ((storeAfter_legible medium watcher history).readable
      (storeAfter_tellsLiveVersions medium watcher history))
  obtain ⟨siblings, hsiblings, hlisted⟩ := hlists idea
  refine ⟨siblings, hsiblings, hlisted, fun other => ?_⟩
  obtain ⟨others, hothers, hother⟩ := hlists other
  exact ⟨others, hothers, hlisted.mem_symm hother hconsistent, hother.mem_symm hlisted hconsistent⟩

/-- The third idea belongs to the second one by an older link than to the first one. -/
def branchedTwice : History := [
  (⟨0, 0⟩, .createDiscussion { slug := "energy", topic := "Energy" }),
  (⟨1, 0⟩, .createIdea { discussion := 1 }),
  (⟨2, 0⟩, .createIdea { discussion := 1 }),
  (⟨3, 0⟩, .createIdea { discussion := 1 }),
  (⟨4, 0⟩, .createLink { source := 2, target := 3 }),
  (⟨5, 0⟩, .createLink { source := 1, target := 2 }),
  (⟨6, 0⟩, .createLink { source := 1, target := 3 }),
  (⟨7, 0⟩, .createLink { source := 2, target := 4 })]

/-- The child of the second idea comes first, and both children are told of the third idea. -/
theorem branchedTwice_siblings :
    let store := storeAfter .memory .nobody branchedTwice
    (store.siblings 3).map (List.map (·.id)) = .ok [4, 2] ∧ store.SiblingBefore 3 4 2 ∧
      ∃ others, store.siblings 2 = .ok others ∧ 3 ∈ others.map (·.id) := by
  intro store
  have hids : ((storeAfter .memory .nobody branchedTwice).siblings 3).map (List.map (·.id)) =
      .ok [4, 2] := by
    simp only [siblings, children, childLinks_eq_insertionSort]
    decide +kernel
  obtain ⟨siblings, hsiblings, hlisted, hsymm⟩ :=
    siblings_after_history .memory .nobody branchedTwice 3
  rw [hsiblings] at hids
  have hmap : siblings.map (·.id) = [4, 2] := Except.ok.inj hids
  have hordered : (siblings.map (·.id)).Pairwise (store.SiblingBefore 3) :=
    List.pairwise_map.mpr hlisted.ordered
  obtain ⟨others, hothers, hboth⟩ := hsymm 2
  rw [hmap] at hordered hboth
  exact ⟨by rw [hsiblings]; exact hids, List.rel_of_pairwise_cons hordered List.mem_cons_self,
    others, hothers, hboth.mp (by decide)⟩

end Deliberation.Session
