import Deliberation.Proofs.Store.Deletion

/-!
What moving an idea does to the store, row by row. Each live link that led to the idea dies, also
one from the new parent and one from the idea itself, and a single new link takes their place. The
new parent and the former ones are counted once each, however many links led from them; an idea that
loses its link to itself is not counted.
-/

namespace Deliberation.Store

variable {now : Timestamp} {store before after : Store} {moved parent former idea : Id}
  {order : Place}

/-- From one store to the other one more modification of an idea has been counted. Its row is the
same otherwise. -/
def CountsOnce (now : Timestamp) (before after : Store) (idea : Id) : Prop :=
  ∃ (row : IdeaRow) (version : Nat), before.ideas.get? idea = some row ∧
    row.version = .whole version ∧ after.ideas.get? idea = some { row with
      modified := .legible now
      version := .whole (version + 1 : Nat) }

structure CanMove (store : Store) (moved parent : Id) (order : Place) : Prop where
  finite : order.nonFinite? = none
  apart : parent ≠ moved
  linkable : store.Linkable parent moved
  noRoot : ∃ row, store.ideas.get? moved = some row ∧ row.kind ≠ .legible .root

structure IsMove (now : Timestamp) (moved parent : Id) (order : Place) (before after : Store) :
    Prop where
  discussions : after.discussions = before.discussions
  posts : after.posts = before.posts
  contents : after.contents = before.contents
  actions : after.actions = before.actions
  guarded : after.guarded = before.guarded
  added : after.links.get? before.links.nextId =
    some (.ofNew now { source := parent, target := moved, order })
  removed : ∀ link row, before.links.get? link = some row → row.isLive → row.target = moved →
    after.links.get? link = some { row with tombstone := some (.legible now) }
  links : ∀ link, link ≠ before.links.nextId →
    (∀ row, before.links.get? link = some row → row.isLive → row.target ≠ moved) →
    after.links.get? link = before.links.get? link
  counted : ∀ idea, idea = parent ∨ before.IsParentOf idea moved → before.CountsOnce now after idea
  others : ∀ idea, idea ≠ parent → ¬ before.IsParentOf idea moved →
    after.ideas.get? idea = before.ideas.get? idea

/-- A modification of a live idea can be counted where the versions of such ideas can be told. -/
theorem countsOnce_of_bumped {row : IdeaRow} (hversions : before.TellsLiveVersions)
    (hrow : before.ideas.get? idea = some row) (hlive : row.isLive)
    (hafter : after.ideas.get? idea = (before.ideas.get? idea).map (IdeaRow.bumped now)) :
    before.CountsOnce now after idea := by
  obtain ⟨version, hread⟩ := hversions idea row hrow hlive
  obtain ⟨hversion, hbumped⟩ := IdeaRow.bumped_of_read now hread
  refine ⟨row, version, hrow, hversion, ?_⟩
  rw [hafter, hrow, Option.map_some, hbumped]

theorem mem_formerParents_iff_isParentOf :
    former ∈ store.formerParents moved parent ↔ store.IsParentOf former moved ∧
      former ≠ parent := by
  rw [← mem_linkedParents_iff_isParentOf, mem_formerParents_iff, mem_linkedParents_iff, and_assoc]
  exact and_congr_right fun _ => and_comm

/-- An idea that a live link of a consistent store leads from is live. -/
theorem Consistent.isLive_of_isParentOf (h : store.Consistent)
    (hformer : store.IsParentOf former moved) :
    ∃ row, store.ideas.get? former = some row ∧ row.isLive := by
  obtain ⟨-, link, linkRow, hlink, hlive, rfl, -⟩ := hformer
  exact h.isLive_source hlink hlive

def relocate (now : Timestamp) (moved parent : Id) (order : Place) (store : Store) : Store :=
  (((store.removeLinks now ((store.inbound moved).map (·.1))).touchAll now
    (store.formerParents moved parent)).pushLink
      (.ofNew now { source := parent, target := moved, order })).touch now parent

theorem get?_idea_relocate_of_counted (h : idea = parent ∨ store.IsParentOf idea moved) :
    (store.relocate now moved parent order).ideas.get? idea =
      (store.ideas.get? idea).map (IdeaRow.bumped now) := by
  change ((store.ideas.updateAll _ _).update parent _).get? idea = _
  rw [Table.get?_update]
  by_cases hparent : idea = parent
  · subst hparent
    rw [if_pos rfl, Table.get?_updateAll_of_notMem parent_notMem_formerParents]
  · have hformer := mem_formerParents_iff_isParentOf.mpr ⟨h.resolve_left hparent, hparent⟩
    rw [if_neg hparent,
      Table.get?_updateAll_of_mem (formerParents_nodup store moved parent) hformer]

theorem get?_idea_relocate_of_other (hparent : idea ≠ parent)
    (hformer : ¬ store.IsParentOf idea moved) :
    (store.relocate now moved parent order).ideas.get? idea = store.ideas.get? idea := by
  have hquiet : idea ∉ store.formerParents moved parent := fun hmem =>
    hformer (mem_formerParents_iff_isParentOf.mp hmem).1
  change ((store.ideas.updateAll _ _).update parent _).get? idea = _
  rw [Table.get?_update, if_neg hparent, Table.get?_updateAll_of_notMem hquiet]

/-- An idea of a consistent store is moved, if the versions of the live ideas can be told. -/
theorem isMove_relocate (hconsistent : store.Consistent) (hversions : store.TellsLiveVersions)
    (hlinkable : store.Linkable parent moved) :
    store.IsMove now moved parent order (store.relocate now moved parent order) where
  discussions := rfl
  posts := rfl
  contents := rfl
  actions := rfl
  guarded := rfl
  added := by
    have hnext : store.links.nextId =
        (store.links.updateAll ((store.inbound moved).map (·.1)) (LinkRow.removed now)).nextId :=
      Table.nextId_updateAll.symm
    rw [hnext]
    exact Table.get?_push_nextId
  removed link row hrow hlive htarget := by
    have hmem := mem_map_inbound_iff.mpr ⟨row, hrow, hlive, htarget⟩
    refine Table.get?_push_of_some ?_
    change (store.links.updateAll _ _).get? link = _
    rw [Table.get?_updateAll_of_mem (inbound_nodup store moved) hmem, hrow]
    rfl
  links link hold hquiet := by
    have hkept : link ∉ (store.inbound moved).map (·.1) := by
      rw [mem_map_inbound_iff]
      rintro ⟨row, hrow, hlive, htarget⟩
      exact hquiet row hrow hlive htarget
    change ((store.links.updateAll _ _).push _).get? link = _
    rw [Table.get?_push, Table.nextId_updateAll, if_neg hold, Table.get?_updateAll_of_notMem hkept]
  counted idea hcounted := by
    obtain ⟨row, hrow, hlive⟩ : ∃ row, store.ideas.get? idea = some row ∧ row.isLive := by
      rcases hcounted with rfl | hformer
      · obtain ⟨row, -, hrow, -, hlive, -⟩ := hlinkable
        exact ⟨row, hrow, hlive⟩
      · exact hconsistent.isLive_of_isParentOf hformer
    exact countsOnce_of_bumped hversions hrow hlive (get?_idea_relocate_of_counted hcounted)
  others idea hparent hformer := get?_idea_relocate_of_other hparent hformer

/-- The one live link that leads to an idea that has been moved is the new one. -/
theorem IsMove.inbound_eq (h : before.IsMove now moved parent order after) :
    after.inbound moved =
      [(before.links.nextId, .ofNew now { source := parent, target := moved, order })] := by
  have hnew := Table.mem_entries_iff.mpr h.added
  refine Table.eq_of_mem_iff (List.filter_sublist.trans List.filter_sublist)
    (List.singleton_sublist.mpr hnew) fun ⟨link, row⟩ => ?_
  rw [List.mem_singleton, inbound, List.mem_filter, mem_liveLinks_iff, beq_iff_eq]
  constructor
  · rintro ⟨⟨hrow, hlive⟩, htarget⟩
    by_cases hlink : link = before.links.nextId
    · subst hlink
      exact congrArg _ (Option.some.inj (hrow.symm.trans h.added))
    · have hquiet : ∀ old, before.links.get? link = some old → old.isLive → old.target ≠ moved := by
        intro old hold holdLive holdTarget
        have hremoved := h.removed link old hold holdLive holdTarget
        obtain rfl := Option.some.inj (hrow.symm.trans hremoved)
        cases hlive
      exact absurd htarget (hquiet row ((h.links link hlink hquiet).symm.trans hrow) hlive)
  · rintro heq
    obtain ⟨rfl, rfl⟩ := Prod.mk.inj heq
    exact ⟨⟨h.added, rfl⟩, rfl⟩

end Deliberation.Store

namespace Deliberation

open Store

/-- What a request that moves an idea has found, what it has done, and what it reports: each former
parent but the new one, and then the new one, all with the versions that they have now. -/
theorem Request.Effect.isMove {now : Timestamp} {moved parent : Id} {order : Place}
    {store after : Store} {receipt : Receipt Id}
    (heffect : Effect now store (.moveIdea moved parent order) receipt after)
    (hconsistent : store.Consistent) (hversions : store.TellsLiveVersions) :
    store.CanMove moved parent order ∧ store.IsMove now moved parent order after ∧
    receipt.reply = store.links.nextId ∧
    ∃ (told : List (Id × Nat)) (version : Nat), told.map (·.1) = store.formerParents moved parent ∧
      (∀ entry ∈ told ++ [(parent, version)], ∃ row,
        after.ideas.get? entry.1 = some row ∧ row.version = .whole entry.2) ∧
      receipt.changes = modified (told ++ [(parent, version)]) := by
  cases heffect with
  | @moveIdea _ _ _ version versions horder hother hlinkable hkind hformer htold =>
    have hmove : store.IsMove now moved parent order (store.relocate now moved parent order) :=
      isMove_relocate hconsistent hversions hlinkable
    refine ⟨⟨horder, hother, hlinkable, hkind⟩, hmove, rfl, versions, version, hformer, ?_, ?_⟩
    · intro entry hentry
      obtain ⟨row, hrow, hread⟩ := htold entry hentry
      have hcounted : entry.1 = parent ∨ store.IsParentOf entry.1 moved := by
        rcases List.mem_append.mp hentry with hmem | hlast
        · have hlisted := hformer ▸ List.mem_map_of_mem hmem
          exact Or.inr (mem_formerParents_iff_isParentOf.mp hlisted).1
        · obtain rfl := List.mem_singleton.mp hlast
          exact Or.inl rfl
      refine ⟨row.bumped now, ?_, (Version.read_eq_ok hread).1⟩
      exact (get?_idea_relocate_of_counted hcounted).trans (by rw [hrow, Option.map_some])
    · simp only [modified, List.map_append, List.map_cons, List.map_nil]

end Deliberation
