import Deliberation.Proofs.Closure.Resolver
import Deliberation.Proofs.Session.Consistency

/-!
Closures in consistent stores. Whoever follows a link looks at the idea that it leads to, and never
at the one that it comes from. Where links join live ideas only, this makes no difference, and what
is above an idea is found by going the ways down to it backward.
-/

namespace Deliberation

namespace Store

variable {store : Store} {idea upper lower : Id}

/-- A live link leads from one idea to another. -/
def Linked (store : Store) (source target : Id) : Prop :=
  ∃ link row, store.links.get? link = some row ∧ row.isLive ∧ row.source = source ∧
    row.target = target

/-- Live links of a consistent store lead to live ideas only. -/
theorem Consistent.leadsTo_forward_iff (h : store.Consistent) {source target : Id} :
    store.LeadsTo .forward source target ↔ store.Linked source target := by
  constructor
  · rintro ⟨⟨link, row, hrow, hlive, hsource, htarget⟩, -⟩
    exact ⟨link, row, hrow, hlive, hsource, htarget⟩
  · rintro ⟨link, row, hrow, hlive, rfl, rfl⟩
    obtain ⟨-, child, -, hchild, -, hchildLive, -⟩ := h.links link row hrow hlive
    exact ⟨⟨link, row, hrow, hlive, rfl, rfl⟩, child, hchild, hchildLive⟩

/-- Live links of a consistent store start at live ideas only. -/
theorem Consistent.leadsTo_backward_iff (h : store.Consistent) {source target : Id} :
    store.LeadsTo .backward target source ↔ store.Linked source target := by
  constructor
  · rintro ⟨⟨link, row, hrow, hlive, htarget, hsource⟩, -⟩
    exact ⟨link, row, hrow, hlive, hsource, htarget⟩
  · rintro ⟨link, row, hrow, hlive, rfl, rfl⟩
    exact ⟨⟨link, row, hrow, hlive, rfl, rfl⟩, h.isLive_source hrow hlive⟩

/-- In a consistent store downward paths are paths of live links between live ideas. -/
theorem Consistent.reaches_forward_iff (h : store.Consistent) :
    store.Reaches .forward upper lower ↔ Relation.TransGen store.Linked upper lower := by
  have hstep : store.LeadsTo .forward = store.Linked := by
    funext source target
    exact propext h.leadsTo_forward_iff
  rw [Reaches, hstep]

/-- Following links upward turns the paths of live links round. -/
theorem Consistent.reaches_backward_iff (h : store.Consistent) :
    store.Reaches .backward lower upper ↔ Relation.TransGen store.Linked upper lower := by
  have hstep : store.LeadsTo .backward = Function.swap store.Linked := by
    funext target source
    exact propext h.leadsTo_backward_iff
  rw [Reaches, hstep, Relation.transGen_swap]

theorem Consistent.mem_closure_iff (h : store.Consistent) {root : Id} {ids : List Id}
    (hclosure : store.IsClosureOf .forward [root] true ids) :
    idea ∈ ids ↔ Relation.ReflTransGen store.Linked root idea := by
  rw [hclosure.2 idea, Relation.reflTransGen_iff_eq_or_transGen, ← h.reaches_forward_iff]
  simp [or_comm]

/-- Upward closures hold what has a path down to one of the roots. -/
theorem Consistent.mem_closure_backward_iff (h : store.Consistent) {roots ids : List Id}
    (hclosure : store.IsClosureOf .backward roots true ids) :
    idea ∈ ids ↔ ∃ root ∈ roots, Relation.ReflTransGen store.Linked idea root := by
  rw [hclosure.2 idea]
  refine exists_congr fun root => and_congr_right fun _ => ?_
  rw [Relation.reflTransGen_iff_eq_or_transGen, ← h.reaches_backward_iff]
  simp [or_comm, eq_comm]

/-- Below an idea stands what paths of live links lead to. -/
theorem Consistent.exists_descendants (h : store.Consistent) (strategy : ClosureStrategy)
    (root : Id) :
    ∃ below, (strategy.descendants store root false).result = .ok below ∧ below.Pairwise (· < ·) ∧
      ∀ far, far ∈ below ↔ Relation.TransGen store.Linked root far := by
  obtain ⟨below, hbelow, hordered, hmem⟩ := expansion_result store .forward [root] false
  refine ⟨below, (strategy.descendants_result root).trans hbelow, hordered, fun far => ?_⟩
  rw [hmem, ← h.reaches_forward_iff]
  simp

/-- The idea itself is below it too, by the path without a link. -/
theorem Consistent.exists_inclusive_descendants (h : store.Consistent)
    (strategy : ClosureStrategy) (root : Id) :
    ∃ below, (strategy.descendants store root true).result = .ok below ∧ below.Pairwise (· < ·) ∧
      ∀ far, far ∈ below ↔ Relation.ReflTransGen store.Linked root far := by
  obtain ⟨below, hbelow, hclosure⟩ := expansion_result store .forward [root] true
  exact ⟨below, (strategy.descendants_result root).trans hbelow, hclosure.1,
    fun _ => h.mem_closure_iff hclosure⟩

end Store

namespace Session

open Store

/-- Whatever was asked of a new database before, and whichever strategies look: one idea is found
below another exactly if the other is found above the one, and this is so exactly if live links lead
from the other to the one. The ids may be those of deleted ideas or of none, and they may be the
same. -/
theorem descendants_iff_ancestors_after_history (medium : Medium) (watcher : Watcher)
    (history : History) (down up : ClosureStrategy) (inclusive : Bool) (upper lower : Id) :
    let store := storeAfter medium watcher history
    ∃ below above, (down.descendants store upper inclusive).result = .ok below ∧
      (up.ancestors store [lower] inclusive).result = .ok above ∧ (lower ∈ below ↔ upper ∈ above) ∧
      (lower ∈ below ↔
        Relation.TransGen store.Linked upper lower ∨ (inclusive ∧ upper = lower)) := by
  intro store
  have hconsistent : store.Consistent := storeAfter_consistent medium watcher history
  obtain ⟨below, hbelow, -, hmemBelow⟩ := expansion_result store .forward [upper] inclusive
  obtain ⟨above, habove, -, hmemAbove⟩ := expansion_result store .backward [lower] inclusive
  have hlower : lower ∈ below ↔
      Relation.TransGen store.Linked upper lower ∨ (inclusive ∧ upper = lower) := by
    rw [hmemBelow, ← hconsistent.reaches_forward_iff]
    simp [eq_comm]
  have hupper : upper ∈ above ↔
      Relation.TransGen store.Linked upper lower ∨ (inclusive ∧ upper = lower) := by
    rw [hmemAbove, ← hconsistent.reaches_backward_iff]
    simp
  exact ⟨below, above, (down.descendants_result upper).trans hbelow,
    (up.ancestors_singleton_result lower).trans habove, hlower.trans hupper.symm, hlower⟩

end Session

end Deliberation
