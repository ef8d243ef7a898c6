import Deliberation.Proofs.Json
import Deliberation.Proofs.Store.Write
import Deliberation.Session.Maintenance

/-!
Tables as records of what was created. A table evolves when each row that it has stays, changed at
most as it may be, and it records a list of creations when its rows are those creations, numbered
one after another. What a row says of its creation, and what may become of it later, is told here
for each kind of row.
-/

namespace Deliberation

/-- An idea with the present fields of a patch. -/
def NewIdea.patched (new : NewIdea) (patch : IdeaPatch) : NewIdea :=
  { new with
    shortTitle := patch.shortTitle.or new.shortTitle
    longTitle := patch.longTitle.or new.longTitle
    definition := patch.definition.or new.definition
    hidden := patch.hidden.getD new.hidden }

namespace Store

structure Creation (α : Type) where
  id : Id
  now : Timestamp
  new : α

namespace Table

variable {ρ α : Type} {before middle after table : Table ρ} {R : ρ → ρ → Prop}

/-- Every row stays, and is related to what it was. -/
def Evolves (R : ρ → ρ → Prop) (before after : Table ρ) : Prop :=
  ∀ id row, before.get? id = some row → ∃ later, after.get? id = some later ∧ R row later

namespace Evolves

theorem refl (hrefl : ∀ row, R row row) (table : Table ρ) : table.Evolves R table :=
  fun _ row hrow => ⟨row, hrow, hrefl row⟩

theorem trans (htrans : ∀ {a b c}, R a b → R b c → R a c) (hfirst : before.Evolves R middle)
    (hsecond : middle.Evolves R after) : before.Evolves R after := by
  intro id row hrow
  obtain ⟨between, hbetween, hold⟩ := hfirst id row hrow
  obtain ⟨later, hlater, hnew⟩ := hsecond id between hbetween
  exact ⟨later, hlater, htrans hold hnew⟩

theorem push (h : before.Evolves R after) (row : ρ) : before.Evolves R (after.push row) := by
  intro id old hold
  obtain ⟨later, hlater, hrelated⟩ := h id old hold
  exact ⟨later, get?_push_of_some hlater, hrelated⟩

/-- Distinct rows are changed, each of them as it may be. -/
theorem updateAll (hrefl : ∀ row, R row row) {ids : List Id} (hdistinct : ids.Nodup)
    {change : ρ → ρ} (hchange : ∀ id ∈ ids, ∀ row, table.get? id = some row → R row (change row)) :
    table.Evolves R (table.updateAll ids change) := by
  intro id row hrow
  by_cases hmem : id ∈ ids
  · exact ⟨change row, by rw [get?_updateAll_of_mem hdistinct hmem, hrow]; rfl,
      hchange id hmem row hrow⟩
  · exact ⟨row, by rw [get?_updateAll_of_notMem hmem, hrow], hrefl row⟩

theorem update (hrefl : ∀ row, R row row) {id : Id} {change : ρ → ρ}
    (hchange : ∀ row, table.get? id = some row → R row (change row)) :
    table.Evolves R (table.update id change) := by
  refine updateAll hrefl (List.nodup_singleton id) fun other hother => ?_
  obtain rfl := List.mem_singleton.mp hother
  exact hchange

theorem mapRows {change : ρ → ρ} (hchange : ∀ row, R row (change row)) :
    table.Evolves R (table.mapRows change) :=
  fun _ row hrow => ⟨change row, by rw [get?_mapRows, hrow]; rfl, hchange row⟩

end Evolves

structure Records (table : Table ρ) (holds : Creation α → ρ → Prop) (created : List (Creation α)) :
    Prop where
  ids : created.map (·.id) = (List.range' 1 table.size).map fun number : Nat => (number : Id)
  rows : ∀ creation ∈ created, ∃ row, table.get? creation.id = some row ∧ holds creation row

namespace Records

variable {holds later : Creation α → ρ → Prop} {created : List (Creation α)}

theorem empty : ({} : Table ρ).Records holds [] where
  ids := rfl
  rows creation h := by cases h

theorem exists_creation (h : table.Records holds created) {id : Id} {row : ρ}
    (hrow : table.get? id = some row) :
    ∃ creation ∈ created, creation.id = id ∧ holds creation row := by
  obtain ⟨hfirst, hlast⟩ := exists_get?_iff.mp ⟨row, hrow⟩
  have hmem : id ∈ created.map (·.id) := by
    rw [h.ids, List.mem_map]
    refine ⟨id.toNat, List.mem_range'_1.mpr ?_, ?_⟩
    · unfold nextId at hlast
      unfold Id at *
      omega
    · exact Int.toNat_of_nonneg (Int.le_trans Int.one_nonneg hfirst)
  obtain ⟨creation, hcreation, rfl⟩ := List.mem_map.mp hmem
  obtain ⟨same, hsame, hholds⟩ := h.rows creation hcreation
  obtain rfl := Option.some.inj (hsame.symm.trans hrow)
  exact ⟨creation, hcreation, rfl, hholds⟩

theorem push (h : table.Records holds created) {creation : Creation α} {row : ρ}
    (hid : creation.id = table.nextId) (hholds : holds creation row) :
    (table.push row).Records holds (created ++ [creation]) where
  ids := by
    have hlast : ((1 + 1 * table.size : Nat) : Id) = table.nextId := by
      unfold nextId Id
      omega
    rw [List.map_append, h.ids, size_push, List.range'_concat, List.map_append, List.map_cons,
      List.map_cons, List.map_nil, List.map_nil, hid, hlast]
  rows other hother := by
    rcases List.mem_append.mp hother with hold | hnew
    · obtain ⟨found, hfound, hother⟩ := h.rows other hold
      exact ⟨found, get?_push_of_some hfound, hother⟩
    · obtain rfl := List.mem_singleton.mp hnew
      exact ⟨row, hid ▸ get?_push_nextId, hholds⟩

theorem append_none (h : table.Records holds created) :
    table.Records holds (created ++ (none : Option (Creation α)).toList) := by
  rw [Option.toList_none, List.append_nil]
  exact h

/-- The rows change, and what their creations say changes with them. -/
theorem map (h : before.Records holds created) {amend : Creation α → Creation α}
    (hids : ∀ creation, (amend creation).id = creation.id) (hsize : after.size = before.size)
    (hrows : ∀ creation ∈ created, ∀ row, before.get? creation.id = some row → holds creation row →
      ∃ now, after.get? creation.id = some now ∧ later (amend creation) now) :
    after.Records later (created.map amend) where
  ids := by
    rw [hsize, ← h.ids, List.map_map]
    exact List.map_congr_left fun creation _ => hids creation
  rows other hother := by
    obtain ⟨creation, hcreation, rfl⟩ := List.mem_map.mp hother
    obtain ⟨row, hrow, hholds⟩ := h.rows creation hcreation
    obtain ⟨now, hnow, hlater⟩ := hrows creation hcreation row hrow hholds
    exact ⟨now, (hids creation).symm ▸ hnow, hlater⟩

/-- The rows change in nothing that their creations speak of. -/
theorem evolve (h : before.Records holds created) (hsize : after.size = before.size)
    (hevolves : before.Evolves R after)
    (hkeeps : ∀ creation row now, R row now → holds creation row → holds creation now) :
    after.Records holds created := by
  have hmapped : after.Records holds (created.map id) := by
    refine h.map (fun _ => rfl) hsize fun creation _ row hrow hholds => ?_
    obtain ⟨now, hnow, hrelated⟩ := hevolves creation.id row hrow
    exact ⟨now, hnow, hkeeps creation row now hrelated hholds⟩
  rwa [List.map_id] at hmapped

theorem update (h : table.Records holds created) {change : ρ → ρ}
    (hchange : ∀ creation row, holds creation row → holds creation (change row)) (id : Id) :
    (table.update id change).Records holds created := by
  have hevolves :
    table.Evolves (fun row later => ∀ creation, holds creation row → holds creation later)
      (table.update id change) :=
    Evolves.update (fun _ _ hholds => hholds) fun row _ creation => hchange creation row
  exact h.evolve size_update hevolves fun creation _ _ hlater => hlater creation

theorem updateAll (h : table.Records holds created) {change : ρ → ρ}
    (hchange : ∀ creation row, holds creation row → holds creation (change row)) (ids : List Id) :
    (table.updateAll ids change).Records holds created := by
  induction ids generalizing table with
  | nil => exact h
  | cons id rest ih => exact ih (h.update hchange id)

end Records

end Table

variable {now : Timestamp}

/-! ## Rows -/

/-- The row of a new discussion. The locales are kept as the text of a document. -/
def DiscussionRow.ofNew (now : Timestamp) (new : NewDiscussion) : DiscussionRow where
  slug := new.slug
  topic := new.topic
  locales := localesCell (Json.render (.ofTexts new.locales))
  created := .legible now

/-- The text of the locales is read as these locales. -/
theorem DiscussionRow.ofNew_eq (now : Timestamp) (new : NewDiscussion) :
    DiscussionRow.ofNew now new = ⟨new.slug, new.topic, .legible new.locales, .legible now⟩ := by
  have hlocales : localesCell (Json.render (.ofTexts new.locales)) = .legible new.locales := by
    simp [localesCell, Cell.ofText, Json.value?_render_texts, Json.texts?_ofTexts]
  rw [DiscussionRow.ofNew, hlocales]

/-- The row of a new tie of a post. -/
def ContentRow.ofNew (now : Timestamp) (new : NewContentLink) : ContentRow :=
  ⟨new.idea, new.post, new.kind, new.important, new.creator, now⟩

structure IdeaRow.IsOf (creation : Creation NewIdea) (row : IdeaRow) : Prop where
  discussion : row.discussion = creation.new.discussion
  kind : row.kind = .legible creation.new.kind
  shortTitle : row.shortTitle = creation.new.shortTitle
  longTitle : row.longTitle = creation.new.longTitle
  definition : row.definition = creation.new.definition
  hidden : row.hidden = creation.new.hidden
  created : row.created = .legible creation.now

structure LinkRow.IsOf (creation : Creation NewLink) (row : LinkRow) : Prop where
  source : row.source = creation.new.source
  target : row.target = creation.new.target
  order : row.order = creation.new.order.stored
  type : row.type = creation.new.type
  created : row.created = .legible creation.now

structure ActionRow.IsOf (creation : Creation NewAction) (row : ActionRow) : Prop where
  kind : row.kind = creation.new.kind
  actor : row.actor = creation.new.actor
  post : row.post = creation.new.post
  created : row.created = creation.now

/-- What may become of the row of an idea: once deleted, it stays as it is. -/
def IdeaRow.MayBecome (row later : IdeaRow) : Prop := row.isLive = false → later = row

/-- What may become of the row of a link: it is removed, once. -/
def LinkRow.MayBecome (row later : LinkRow) : Prop :=
  later = row ∨ row.isLive ∧ ∃ date, later = row.removed date

/-- What may become of the row of an action: it is taken back, once. -/
def ActionRow.MayBecome (row later : ActionRow) : Prop :=
  later = row ∨ row.isLive ∧ ∃ date, later = row.retracted date

/-- Every row stays. Discussions, posts and ties stay as they are, and what has a tombstone keeps
it. -/
structure ContinuesAs (before after : Store) : Prop where
  discussions : before.discussions.Evolves Eq after.discussions
  ideas : before.ideas.Evolves IdeaRow.MayBecome after.ideas
  links : before.links.Evolves LinkRow.MayBecome after.links
  posts : before.posts.Evolves Eq after.posts
  contents : before.contents.Evolves Eq after.contents
  actions : before.actions.Evolves ActionRow.MayBecome after.actions

theorem IdeaRow.MayBecome.trans {a b c : IdeaRow} (hfirst : a.MayBecome b)
    (hsecond : b.MayBecome c) : a.MayBecome c := by
  intro hdead
  obtain rfl := hfirst hdead
  exact hsecond hdead

theorem LinkRow.MayBecome.refl (row : LinkRow) : row.MayBecome row := Or.inl rfl

theorem LinkRow.MayBecome.trans {a b c : LinkRow} (hfirst : a.MayBecome b)
    (hsecond : b.MayBecome c) : a.MayBecome c := by
  rcases hfirst with rfl | ⟨hlive, date, rfl⟩
  · exact hsecond
  · rcases hsecond with rfl | ⟨hdead, -⟩
    · exact Or.inr ⟨hlive, date, rfl⟩
    · cases hdead

theorem ActionRow.MayBecome.refl (row : ActionRow) : row.MayBecome row := Or.inl rfl

theorem ActionRow.MayBecome.trans {a b c : ActionRow} (hfirst : a.MayBecome b)
    (hsecond : b.MayBecome c) : a.MayBecome c := by
  rcases hfirst with rfl | ⟨hlive, date, rfl⟩
  · exact hsecond
  · rcases hsecond with rfl | ⟨hdead, -⟩
    · exact Or.inr ⟨hlive, date, rfl⟩
    · cases hdead

theorem IdeaRow.isOf_ofNew (creation : Creation NewIdea) :
    (IdeaRow.ofNew creation.now creation.new).IsOf creation :=
  ⟨rfl, rfl, rfl, rfl, rfl, rfl, rfl⟩

theorem IdeaRow.IsOf.bumped {creation : Creation NewIdea} {row : IdeaRow} (h : row.IsOf creation) :
    (row.bumped now).IsOf creation :=
  ⟨h.discussion, h.kind, h.shortTitle, h.longTitle, h.definition, h.hidden, h.created⟩

theorem IdeaRow.IsOf.deleted {creation : Creation NewIdea} {row : IdeaRow} (h : row.IsOf creation) :
    (row.deleted now).IsOf creation :=
  ⟨h.discussion, h.kind, h.shortTitle, h.longTitle, h.definition, h.hidden, h.created⟩

theorem IdeaRow.IsOf.patched {creation : Creation NewIdea} {row : IdeaRow} (h : row.IsOf creation)
    (patch : IdeaPatch) :
    (row.patched patch).IsOf { creation with new := creation.new.patched patch } where
  discussion := h.discussion
  kind := h.kind
  shortTitle := by simp [IdeaRow.patched, NewIdea.patched, h.shortTitle]
  longTitle := by simp [IdeaRow.patched, NewIdea.patched, h.longTitle]
  definition := by simp [IdeaRow.patched, NewIdea.patched, h.definition]
  hidden := by simp [IdeaRow.patched, NewIdea.patched, h.hidden]
  created := h.created

theorem LinkRow.isOf_ofNew (creation : Creation NewLink) :
    (LinkRow.ofNew creation.now creation.new).IsOf creation :=
  ⟨rfl, rfl, rfl, rfl, rfl⟩

/-- A link that was removed is still the one that was created. -/
theorem LinkRow.IsOf.mayBecome {creation : Creation NewLink} {row later : LinkRow}
    (h : row.IsOf creation) (hlater : row.MayBecome later) : later.IsOf creation := by
  rcases hlater with rfl | ⟨-, date, rfl⟩
  · exact h
  · exact ⟨h.source, h.target, h.order, h.type, h.created⟩

/-- An action that was taken back is still the one that was recorded. -/
theorem ActionRow.IsOf.mayBecome {creation : Creation NewAction} {row later : ActionRow}
    (h : row.IsOf creation) (hlater : row.MayBecome later) : later.IsOf creation := by
  rcases hlater with rfl | ⟨-, date, rfl⟩
  · exact h
  · exact ⟨h.kind, h.actor, h.post, h.created⟩

/-! ## Links that are removed -/

variable {store : Store}

/-- Removing a live link gives it a tombstone and changes nothing else. -/
theorem removeLink_evolve (now : Timestamp) {link : Id} {linkRow : LinkRow}
    (hlink : store.links.get? link = some linkRow)
    (hlive : linkRow.isLive) :
    store.links.Evolves LinkRow.MayBecome (store.removeLink now link).links := by
  refine Table.Evolves.update LinkRow.MayBecome.refl fun row hrow => ?_
  obtain rfl := Option.some.inj (hlink.symm.trans hrow)
  exact Or.inr ⟨hlive, now, rfl⟩

theorem removeLinksOf_evolve (now : Timestamp) (store : Store) (idea : Id) :
    store.links.Evolves LinkRow.MayBecome (store.removeLinksOf now idea).links := by
  refine Table.Evolves.mapRows fun row => ?_
  split
  · rename_i hhit
    exact Or.inr ⟨(Bool.and_eq_true_iff.mp hhit).1, now, rfl⟩
  · exact LinkRow.MayBecome.refl row

/-- The links that lead to an idea are removed when the idea is moved. -/
theorem removeInbound_evolve (now : Timestamp) (store : Store) (idea : Id) :
    store.links.Evolves LinkRow.MayBecome
      (store.removeLinks now ((store.inbound idea).map (·.1))).links := by
  refine Table.Evolves.updateAll LinkRow.MayBecome.refl (inbound_nodup store idea) ?_
  intro link hlink row hrow
  obtain ⟨other, hother, hlive, -⟩ := mem_map_inbound_iff.mp hlink
  obtain rfl := Option.some.inj (hother.symm.trans hrow)
  exact Or.inr ⟨hlive, now, rfl⟩

end Store

end Deliberation
