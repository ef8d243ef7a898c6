import Deliberation.Proofs.Store.Write

/-!
Legible rows. Every cell that a write fills in means something, and no write makes an illegible cell
of a legible one. The version of an idea is the one column whose legibility depends on what was
written before; it is left aside here.
-/

namespace Deliberation.Store

theorem Cell.isLegible_iff {α : Type} {cell : Cell α} :
    cell.isLegible ↔ ∃ value, cell = .legible value := by
  cases cell with
  | legible value => simp [Cell.isLegible]
  | illegible text => simp [Cell.isLegible]

/-- A date that may be missing is legible if it is there. -/
def IsLegibleDate (cell : Option (Cell Timestamp)) : Prop :=
  ∃ date : Option Timestamp, cell = date.map Cell.legible

theorem isLegibleDate_none : IsLegibleDate none := ⟨none, rfl⟩

theorem isLegibleDate_some (date : Timestamp) : IsLegibleDate (some (.legible date)) :=
  ⟨some date, rfl⟩

def DiscussionRow.IsLegible (row : DiscussionRow) : Prop :=
  row.locales.isLegible ∧ row.created.isLegible

/-- The cells of an idea mean something, whatever its version. -/
def IdeaRow.IsLegible (row : IdeaRow) : Prop :=
  row.kind.isLegible ∧ row.created.isLegible ∧ row.modified.isLegible ∧ IsLegibleDate row.tombstone

def LinkRow.IsLegible (row : LinkRow) : Prop := row.created.isLegible ∧ IsLegibleDate row.tombstone

def PostRow.IsLegible (row : PostRow) : Prop := row.kind.isLegible ∧ row.created.isLegible

structure Legible (store : Store) : Prop where
  discussions : store.discussions.Every DiscussionRow.IsLegible
  ideas : store.ideas.Every IdeaRow.IsLegible
  links : store.links.Every LinkRow.IsLegible
  posts : store.posts.Every PostRow.IsLegible

/-! ## What can be read -/

theorem DiscussionRow.IsLegible.exists_read {row : DiscussionRow} (h : row.IsLegible) (id : Id) :
    ∃ discussion, row.read id = .ok discussion := by
  obtain ⟨locales, hlocales⟩ := Cell.isLegible_iff.mp h.1
  obtain ⟨created, hcreated⟩ := Cell.isLegible_iff.mp h.2
  refine ⟨⟨id, row.slug, row.topic, locales, created⟩, ?_⟩
  simp [DiscussionRow.read, readDate, hlocales, hcreated, Cell.read, bind, Except.bind, pure,
    Except.pure]

theorem LinkRow.IsLegible.exists_read {row : LinkRow} (h : row.IsLegible) (id : Id) :
    ∃ link, row.read id = .ok link := by
  obtain ⟨created, hcreated⟩ := Cell.isLegible_iff.mp h.1
  obtain ⟨tombstone, htombstone⟩ := h.2
  exact ⟨⟨id, row.source, row.target, row.order, row.type, created, tombstone⟩,
    LinkRow.read_eq_ok_iff.mpr ⟨hcreated, htombstone, rfl, rfl, rfl, rfl, rfl⟩⟩

theorem PostRow.IsLegible.exists_read {row : PostRow} (h : row.IsLegible) (id : Id) :
    ∃ post, row.read id = .ok post := by
  obtain ⟨kind, hkind⟩ := Cell.isLegible_iff.mp h.1
  obtain ⟨created, hcreated⟩ := Cell.isLegible_iff.mp h.2
  exact ⟨⟨id, row.discussion, kind, row.creator, row.parent, row.ancestry, row.subject, row.body,
    row.hidden, created⟩,
    PostRow.read_eq_ok_iff.mpr ⟨hkind, hcreated, rfl, rfl, rfl, rfl, rfl, rfl, rfl, rfl⟩⟩

/-- Whether a legible idea can be read is up to its version. -/
theorem IdeaRow.IsLegible.exists_read {row : IdeaRow} (h : row.IsLegible) (id : Id) {version : Nat}
    (hversion : row.version.read 10 = .ok version) : ∃ idea, row.read id = .ok idea := by
  obtain ⟨hkind, hcreated, hmodified, tombstone, htombstone⟩ := h
  obtain ⟨kind, hkind⟩ := Cell.isLegible_iff.mp hkind
  obtain ⟨created, hcreated⟩ := Cell.isLegible_iff.mp hcreated
  obtain ⟨modified, hmodified⟩ := Cell.isLegible_iff.mp hmodified
  exact ⟨⟨id, row.discussion, kind, row.shortTitle, row.longTitle, row.definition,
    row.hidden, created, modified, tombstone, version⟩,
    IdeaRow.read_eq_ok_iff.mpr
      ⟨hkind, hcreated, hmodified, htombstone, hversion, rfl, rfl, rfl, rfl, rfl, rfl⟩⟩

/-- Where the version cannot be told, reading the idea fails by this and by nothing else. -/
theorem IdeaRow.IsLegible.read_eq_error {row : IdeaRow} (h : row.IsLegible) (id : Id)
    {fault : DatabaseFault} (hfault : row.version.read 10 = .error fault) :
    row.read id = .error fault := by
  obtain ⟨hkind, hcreated, hmodified, tombstone, htombstone⟩ := h
  obtain ⟨kind, hkind⟩ := Cell.isLegible_iff.mp hkind
  obtain ⟨created, hcreated⟩ := Cell.isLegible_iff.mp hcreated
  obtain ⟨modified, hmodified⟩ := Cell.isLegible_iff.mp hmodified
  have hdate : row.tombstone.mapM (readDate 9) = .ok tombstone :=
    mapM_readDate_eq_ok_iff.mpr htombstone
  simp [IdeaRow.read, readDate, hkind, hcreated, hmodified, hdate, hfault, Cell.read, bind,
    Except.bind]

/-- A row that is there can be found if its like can be read. -/
theorem exists_find {ρ α : Type} {table : Table ρ} {read : Id → ρ → Except DatabaseFault α}
    (h : ∀ id row, table.get? id = some row → ∃ value, read id row = .ok value) (id : Id) :
    ∃ found, find table read id = .ok found := by
  cases hrow : table.get? id with
  | none => exact ⟨none, by simp [find, hrow, answer, pure, Except.pure]⟩
  | some row =>
    obtain ⟨value, hvalue⟩ := h id row hrow
    exact ⟨some value, find_eq_ok_some_iff.mpr ⟨row, hrow, hvalue⟩⟩

theorem exists_readAll {ρ α : Type} {read : Id → ρ → Except DatabaseFault α}
    {entries : List (Id × ρ)} (h : ∀ entry ∈ entries, ∃ value, read entry.1 entry.2 = .ok value) :
    ∃ values, readAll read entries = .ok values := by
  simp only [readAll, answer_eq_ok_iff]
  exact exists_mapM h

/-- An optional row is read if it can be read wherever it is there. -/
theorem exists_answer_mapM {ρ α : Type} {read : Id → ρ → Except DatabaseFault α}
    {row? : Option (Id × ρ)} (h : ∀ entry ∈ row?, ∃ value, read entry.1 entry.2 = .ok value) :
    ∃ found, answer (row?.mapM fun entry => read entry.1 entry.2) = .ok found := by
  simp only [answer_eq_ok_iff, option_mapM_eq_ok_iff]
  cases row? with
  | none => exact ⟨none, Or.inl ⟨rfl, rfl⟩⟩
  | some entry =>
    obtain ⟨value, hvalue⟩ := h entry rfl
    exact ⟨some value, Or.inr ⟨entry, value, rfl, rfl, hvalue⟩⟩

/-! ## What writes leave legible -/

theorem DiscussionRow.isLegible_mk (slug topic : String) (locales : List String)
    (created : Timestamp) :
    DiscussionRow.IsLegible ⟨slug, topic, .legible locales, .legible created⟩ :=
  ⟨rfl, rfl⟩

variable {now : Timestamp} {store : Store}

theorem IdeaRow.isLegible_ofNew (new : NewIdea) : (IdeaRow.ofNew now new).IsLegible :=
  ⟨rfl, rfl, rfl, isLegibleDate_none⟩

theorem IdeaRow.IsLegible.bumped {row : IdeaRow} (h : row.IsLegible) : (row.bumped now).IsLegible :=
  ⟨h.1, h.2.1, rfl, h.2.2.2⟩

theorem IdeaRow.IsLegible.patched {row : IdeaRow} (h : row.IsLegible) (patch : IdeaPatch) :
    (row.patched patch).IsLegible := h

theorem IdeaRow.IsLegible.deleted {row : IdeaRow} (h : row.IsLegible) :
    (row.deleted now).IsLegible :=
  ⟨h.1, h.2.1, rfl, isLegibleDate_some now⟩

theorem LinkRow.isLegible_ofNew (new : NewLink) : (LinkRow.ofNew now new).IsLegible :=
  ⟨rfl, isLegibleDate_none⟩

theorem LinkRow.IsLegible.removed {row : LinkRow} (h : row.IsLegible) :
    (row.removed now).IsLegible :=
  ⟨h.1, isLegibleDate_some now⟩

theorem PostRow.isLegible_ofNew (new : NewPost) (path : String) :
    (PostRow.ofNew now new path).IsLegible := ⟨rfl, rfl⟩

theorem legible_empty : ({} : Store).Legible :=
  ⟨Table.every_empty, Table.every_empty, Table.every_empty, Table.every_empty⟩

theorem Legible.withIdeas (h : store.Legible) {ideas : Table IdeaRow}
    (hideas : ideas.Every IdeaRow.IsLegible) : { store with ideas }.Legible :=
  { h with ideas := hideas }

theorem Legible.withLinks (h : store.Legible) {links : Table LinkRow}
    (hlinks : links.Every LinkRow.IsLegible) : { store with links }.Legible :=
  { h with links := hlinks }

theorem Legible.touchAll (h : store.Legible) (ideas : List Id) :
    (store.touchAll now ideas).Legible :=
  h.withIdeas (h.ideas.updateAll (fun _ hrow => hrow.bumped) ideas)

theorem Legible.touch (h : store.Legible) (idea : Id) : (store.touch now idea).Legible :=
  h.touchAll [idea]

theorem Legible.bury (h : store.Legible) (idea : Id) : (store.bury now idea).Legible :=
  h.withIdeas (h.ideas.update (fun _ hrow => hrow.deleted) idea)

theorem Legible.pushLink (h : store.Legible) (new : NewLink) :
    (store.pushLink (.ofNew now new)).Legible :=
  h.withLinks (h.links.push (LinkRow.isLegible_ofNew new))

theorem Legible.removeLinks (h : store.Legible) (links : List Id) :
    (store.removeLinks now links).Legible :=
  h.withLinks (h.links.updateAll (fun _ hrow => hrow.removed) links)

theorem Legible.removeLink (h : store.Legible) (link : Id) : (store.removeLink now link).Legible :=
  h.removeLinks [link]

theorem Legible.removeLinksOf (h : store.Legible) (idea : Id) :
    (store.removeLinksOf now idea).Legible := by
  refine h.withLinks (h.links.mapRows fun row hrow => ?_)
  split
  · exact hrow.removed
  · exact hrow

end Deliberation.Store
