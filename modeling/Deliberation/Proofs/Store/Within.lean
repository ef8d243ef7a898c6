import Deliberation.Proofs.Store.Consistency

/-!
What belongs to a discussion, and changes elsewhere. Ideas and posts name their discussion; a link
belongs to the discussion of its source, and a tie and an action belong to that of their post. Two
stores are the same within a discussion if all that belongs to it is there in both, under the same
numbers.
-/

namespace Deliberation.Store

namespace Table

variable {ρ : Type} {P : ρ → Prop} {before after final : Table ρ} {row : ρ} {change : ρ → ρ}

/-- Two tables have the same rows with a property, under the same numbers. -/
def SameWhere (P : ρ → Prop) (before after : Table ρ) : Prop :=
  ∀ id row, P row → (before.get? id = some row ↔ after.get? id = some row)

theorem SameWhere.refl (P : ρ → Prop) (table : Table ρ) : SameWhere P table table :=
  fun _ _ _ => Iff.rfl

theorem SameWhere.symm (h : SameWhere P before after) : SameWhere P after before :=
  fun id row hrow => (h id row hrow).symm

theorem SameWhere.trans (h : SameWhere P before after) (hafter : SameWhere P after final) :
    SameWhere P before final :=
  fun id row hrow => (h id row hrow).trans (hafter id row hrow)

theorem SameWhere.congr {Q : ρ → Prop} (h : SameWhere P before after)
    (hsame : ∀ row, Q row ↔ P row) : SameWhere Q before after :=
  fun id row hrow => h id row ((hsame row).mp hrow)

theorem SameWhere.get?_eq (h : SameWhere P before after) {id : Id} (hid : before.get? id = some row)
    (hrow : P row) : after.get? id = before.get? id := by
  rw [(h id row hrow).mp hid, hid]

/-- A new row without the property leaves the rows that have it alone. -/
theorem SameWhere.push (h : SameWhere P before after) (hrow : ¬ P row) :
    SameWhere P before (after.push row) := by
  intro id other hother
  rw [h id other hother, get?_push_eq_some_iff]
  constructor
  · exact Or.inr
  · rintro (⟨-, rfl⟩ | hold)
    · exact absurd hother hrow
    · exact hold

/-- Rows are changed that did not have the property and do not get it. A number may stand in the
list more than once, and its row is then changed as often. -/
theorem SameWhere.updateAll (h : SameWhere P before after) {ids : List Id}
    (hids : ∀ id ∈ ids, ∀ row, after.get? id = some row → ¬ P row)
    (hchange : ∀ row, P (change row) → P row) :
    SameWhere P before (after.updateAll ids change) := by
  have hmany : ∀ times row, P (change^[times] row) → P row := by
    intro times
    induction times with
    | zero => exact fun _ => id
    | succ times ih =>
      intro row hrow
      rw [Function.iterate_succ_apply'] at hrow
      exact ih row (hchange _ hrow)
  intro id row hrow
  rw [h id row hrow]
  by_cases hmem : id ∈ ids
  · constructor
    · intro hold
      exact absurd hrow (hids id hmem row hold)
    · intro hnew
      rw [get?_updateAll] at hnew
      obtain ⟨old, hold, rfl⟩ := Option.map_eq_some_iff.mp hnew
      exact absurd (hmany _ old hrow) (hids id hmem old hold)
  · rw [get?_updateAll_of_notMem hmem]

theorem SameWhere.update (h : SameWhere P before after) {id : Id}
    (hid : ∀ row, after.get? id = some row → ¬ P row) (hchange : ∀ row, P (change row) → P row) :
    SameWhere P before (after.update id change) := by
  have hone : ∀ other ∈ [id], ∀ row, after.get? other = some row → ¬ P row := by
    intro other hother
    obtain rfl := List.mem_singleton.mp hother
    exact hid
  exact h.updateAll hone hchange

theorem SameWhere.mapRows (h : SameWhere P before after)
    (hchange :
      ∀ id row, after.get? id = some row → change row = row ∨ (¬ P row ∧ ¬ P (change row))) :
    SameWhere P before (after.mapRows change) := by
  intro id row hrow
  rw [h id row hrow, get?_mapRows, Option.map_eq_some_iff]
  constructor
  · intro hold
    rcases hchange id row hold with hsame | ⟨hother, -⟩
    · exact ⟨row, hold, hsame⟩
    · exact absurd hrow hother
  · rintro ⟨old, hold, rfl⟩
    rcases hchange id old hold with hsame | ⟨-, hother⟩
    · rw [hsame]
      exact hold
    · exact absurd hrow hother

/-- A list of rows with the property is the same list. -/
theorem SameWhere.filter_entries (h : SameWhere P before after) {p : Id × ρ → Bool}
    (hp : ∀ entry, p entry → P entry.2) : after.entries.filter p = before.entries.filter p := by
  refine eq_of_mem_iff List.filter_sublist List.filter_sublist fun ⟨id, row⟩ => ?_
  rw [List.mem_filter, List.mem_filter, mem_entries_iff, mem_entries_iff]
  exact and_congr_left fun hkept => (h id row (hp _ hkept)).symm

theorem SameWhere.filter_rows (h : SameWhere P before after) {p : ρ → Bool}
    (hp : ∀ row, p row → P row) : after.rows.filter p = before.rows.filter p := by
  have hkept := h.filter_entries (p := fun entry => p entry.2) fun entry => hp entry.2
  rw [rows_eq_map, rows_eq_map, List.filter_map, List.filter_map]
  exact congrArg (List.map (·.2)) hkept

end Table

open Table (SameWhere)

/-- There is an idea with this id in a discussion, deleted or not. -/
def HasIdea (store : Store) (discussion id : Id) : Prop :=
  ∃ row, store.ideas.get? id = some row ∧ row.discussion = discussion

/-- There is a post with this id in a discussion. -/
def HasPost (store : Store) (discussion id : Id) : Prop :=
  ∃ row, store.posts.get? id = some row ∧ row.discussion = discussion

structure SameWithin (discussion : Id) (before after : Store) : Prop where
  home : after.discussions.get? discussion = before.discussions.get? discussion
  ideas : SameWhere (fun row => row.discussion = discussion) before.ideas after.ideas
  links : SameWhere (fun row => before.HasIdea discussion row.source) before.links after.links
  posts : SameWhere (fun row => row.discussion = discussion) before.posts after.posts
  contents :
    SameWhere (fun row => before.HasPost discussion row.post) before.contents after.contents
  actions : SameWhere (fun row => before.HasPost discussion row.post) before.actions after.actions

variable {now : Timestamp} {store before after final : Store} {discussion other id : Id}

/-- An idea belongs to one discussion. -/
theorem HasIdea.unique (h : store.HasIdea discussion id) (hother : store.HasIdea other id) :
    discussion = other := by
  obtain ⟨row, hrow, rfl⟩ := h
  obtain ⟨again, hagain, rfl⟩ := hother
  rw [Option.some.inj (hrow.symm.trans hagain)]

theorem HasPost.unique (h : store.HasPost discussion id) (hother : store.HasPost other id) :
    discussion = other := by
  obtain ⟨row, hrow, rfl⟩ := h
  obtain ⟨again, hagain, rfl⟩ := hother
  rw [Option.some.inj (hrow.symm.trans hagain)]

theorem Consistent.hasIdea_ends (h : store.Consistent) {link : Id} {row : LinkRow}
    (hrow : store.links.get? link = some row) (hlive : row.isLive) :
    store.HasIdea discussion row.source ↔ store.HasIdea discussion row.target := by
  obtain ⟨parent, child, hparent, hchild, -, -, hsame⟩ := h.links link row hrow hlive
  simp [HasIdea, hparent, hchild, hsame]

namespace SameWithin

theorem hasIdea_iff (h : SameWithin discussion before after) :
    before.HasIdea discussion id ↔ after.HasIdea discussion id :=
  exists_congr fun row => and_congr_left (h.ideas id row)

theorem hasPost_iff (h : SameWithin discussion before after) :
    before.HasPost discussion id ↔ after.HasPost discussion id :=
  exists_congr fun row => and_congr_left (h.posts id row)

theorem refl (discussion : Id) (store : Store) : SameWithin discussion store store :=
  ⟨rfl, .refl _ _, .refl _ _, .refl _ _, .refl _ _, .refl _ _⟩

theorem symm (h : SameWithin discussion before after) : SameWithin discussion after before where
  home := h.home.symm
  ideas := h.ideas.symm
  links := h.links.symm.congr fun _ => h.hasIdea_iff.symm
  posts := h.posts.symm
  contents := h.contents.symm.congr fun _ => h.hasPost_iff.symm
  actions := h.actions.symm.congr fun _ => h.hasPost_iff.symm

theorem trans (h : SameWithin discussion before after)
    (hafter : SameWithin discussion after final) : SameWithin discussion before final where
  home := hafter.home.trans h.home
  ideas := h.ideas.trans hafter.ideas
  links := h.links.trans (hafter.links.congr fun _ => h.hasIdea_iff)
  posts := h.posts.trans hafter.posts
  contents := h.contents.trans (hafter.contents.congr fun _ => h.hasPost_iff)
  actions := h.actions.trans (hafter.actions.congr fun _ => h.hasPost_iff)

/-! ## Changes elsewhere -/

variable (h : SameWithin discussion store after)

include h

theorem touchAll {ideas : List Id} (hideas : ∀ idea ∈ ideas, ¬ store.HasIdea discussion idea) :
    SameWithin discussion store (after.touchAll now ideas) where
  __ := h
  ideas := h.ideas.updateAll
    (fun idea hidea row hrow hhere => hideas idea hidea (h.hasIdea_iff.mpr ⟨row, hrow, hhere⟩))
    fun _ => id

theorem touch {idea : Id} (hidea : ¬ store.HasIdea discussion idea) :
    SameWithin discussion store (after.touch now idea) := by
  have hone : ∀ other ∈ [idea], ¬ store.HasIdea discussion other := by
    intro other hother
    obtain rfl := List.mem_singleton.mp hother
    exact hidea
  exact h.touchAll hone

theorem bury {idea : Id} (hidea : ¬ store.HasIdea discussion idea) :
    SameWithin discussion store (after.bury now idea) where
  __ := h
  ideas :=
    h.ideas.update (fun row hrow hhere => hidea (h.hasIdea_iff.mpr ⟨row, hrow, hhere⟩)) fun _ => id

theorem pushLink {row : LinkRow} (hrow : ¬ store.HasIdea discussion row.source) :
    SameWithin discussion store (after.pushLink row) where
  __ := h
  links := h.links.push hrow

theorem removeLinks {links : List Id}
    (hlinks : ∀ link ∈ links, ∀ row, after.links.get? link = some row →
      ¬ store.HasIdea discussion row.source) :
    SameWithin discussion store (after.removeLinks now links) where
  __ := h
  links := h.links.updateAll hlinks fun _ => id

theorem removeLink {link : Id} {row : LinkRow} (hlink : after.links.get? link = some row)
    (hrow : ¬ store.HasIdea discussion row.source) :
    SameWithin discussion store (after.removeLink now link) := by
  have hone : ∀ other ∈ [link], ∀ again, after.links.get? other = some again →
      ¬ store.HasIdea discussion again.source := by
    intro other hother again hagain
    obtain rfl := List.mem_singleton.mp hother
    rw [← Option.some.inj (hlink.symm.trans hagain)]
    exact hrow
  exact h.removeLinks hone

theorem removeLinksOf {idea : Id} (hidea :
    ∀ link row, after.links.get? link = some row → row.isLive →
    row.touches idea → ¬ store.HasIdea discussion row.source) :
    SameWithin discussion store (after.removeLinksOf now idea) where
  __ := h
  links := by
    refine h.links.mapRows fun link row hrow => ?_
    split
    · rename_i hremoved
      rw [Bool.and_eq_true] at hremoved
      have helsewhere := hidea link row hrow hremoved.1 hremoved.2
      exact Or.inr ⟨helsewhere, helsewhere⟩
    · exact Or.inl rfl

theorem pushIdea {row : IdeaRow} (hrow : row.discussion ≠ discussion) :
    SameWithin discussion store { after with ideas := after.ideas.push row } where
  __ := h
  ideas := h.ideas.push hrow

theorem openDiscussion {opened : DiscussionRow} {row : IdeaRow}
    (hother : discussion ≠ after.discussions.nextId) (hrow : row.discussion ≠ discussion) :
    SameWithin discussion store { after with
      discussions := after.discussions.push opened
      ideas := after.ideas.push row } where
  __ := h
  home := by
    rw [Table.get?_push, if_neg hother]
    exact h.home
  ideas := h.ideas.push hrow

theorem pushPost {row : PostRow} (hrow : row.discussion ≠ discussion) :
    SameWithin discussion store { after with posts := after.posts.push row } where
  __ := h
  posts := h.posts.push hrow

theorem pushContent {row : ContentRow} (hrow : ¬ store.HasPost discussion row.post) :
    SameWithin discussion store { after with contents := after.contents.push row } where
  __ := h
  contents := h.contents.push hrow

theorem pushAction {row : ActionRow} (hrow : ¬ store.HasPost discussion row.post) :
    SameWithin discussion store { after with actions := after.actions.push row } where
  __ := h
  actions := h.actions.push hrow

theorem retract {action : Id} {row : ActionRow} (haction : after.actions.get? action = some row)
    (hrow : ¬ store.HasPost discussion row.post) :
    SameWithin discussion store
      { after with actions := after.actions.update action (ActionRow.retracted now) } where
  __ := h
  actions := by
    refine h.actions.update (fun again hagain => ?_) fun _ => id
    rw [← Option.some.inj (haction.symm.trans hagain)]
    exact hrow

end SameWithin

end Deliberation.Store
