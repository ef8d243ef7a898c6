import Deliberation.Proofs.Store.Consistency
import Mathlib.Data.Set.Basic

/-!
The live links that start at an idea, and what the changes of a store make of them.
-/

namespace Deliberation.Store

variable {now : Timestamp} {store : Store} {idea link : Id}

/-- The live links that start at an idea, by id. -/
def outbound (store : Store) (idea : Id) : Set Id :=
  {link | ∃ row, store.links.get? link = some row ∧ row.isLive ∧ row.source = idea}

/-- A link that starts elsewhere makes no difference. -/
theorem outbound_pushLink {row : LinkRow} (h : row.source ≠ idea) :
    (store.pushLink row).outbound idea = store.outbound idea := by
  ext link
  constructor
  · rintro ⟨found, hfound, hlive, hsource⟩
    rcases Table.get?_push_eq_some_iff.mp hfound with ⟨-, rfl⟩ | hold
    · exact absurd hsource h
    · exact ⟨found, hold, hlive, hsource⟩
  · rintro ⟨found, hfound, hrest⟩
    exact ⟨found, Table.get?_push_of_some hfound, hrest⟩

/-- Removing links that do not leave an idea changes nothing about those that do. -/
theorem outbound_removeLinks {links : List Id} (h : ∀ link ∈ links, link ∉ store.outbound idea) :
    (store.removeLinks now links).outbound idea = store.outbound idea := by
  ext link
  constructor
  · rintro ⟨row, hrow, hlive, hsource⟩
    exact ⟨row, (get?_removeLinks hrow hlive).1, hlive, hsource⟩
  · intro hmem
    have hkept : link ∉ links := fun hgone => h link hgone hmem
    obtain ⟨row, hrow, hrest⟩ := hmem
    exact ⟨row, (Table.get?_updateAll_of_notMem hkept).trans hrow, hrest⟩

theorem outbound_removeLink {row : LinkRow} (hrow : store.links.get? link = some row)
    (h : row.source ≠ idea) : (store.removeLink now link).outbound idea = store.outbound idea := by
  have hothers : ∀ other ∈ [link], other ∉ store.outbound idea := by
    intro other hother
    obtain rfl := List.mem_singleton.mp hother
    rintro ⟨again, hagain, -, hsource⟩
    obtain rfl : row = again := Option.some.inj (hrow.symm.trans hagain)
    exact h hsource
  exact outbound_removeLinks hothers

/-- Removing the links of one idea touches another one only where it is linked to the first. -/
theorem outbound_removeLinksOf {gone : Id} (hother : idea ≠ gone)
    (h : ∀ link row, (link, row) ∈ store.inbound gone → row.source ≠ idea) :
    (store.removeLinksOf now gone).outbound idea = store.outbound idea := by
  ext link
  constructor
  · rintro ⟨row, hrow, hlive, hsource⟩
    exact ⟨row, (get?_removeLinksOf hrow hlive).1, hlive, hsource⟩
  · rintro ⟨row, hrow, hlive, rfl⟩
    have hapart : row.target ≠ gone := by
      intro htarget
      refine h link row ?_ rfl
      exact List.mem_filter.mpr ⟨mem_liveLinks_iff.mpr ⟨hrow, hlive⟩, by simp [htarget]⟩
    refine ⟨row, ?_, hlive, rfl⟩
    rw [removeLinksOf, Table.get?_mapRows, hrow, Option.map_some]
    simp [LinkRow.touches, hother, hapart]

end Deliberation.Store
