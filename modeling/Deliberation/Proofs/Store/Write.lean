import Deliberation.Proofs.Id
import Deliberation.Proofs.Store.Step
import Deliberation.Store.Request

/-!
What the twelve writes leave behind when they succeed, and what they have checked before. Each
effect names the store afterwards as a composition of plain functions; nothing here assumes that the
store is in order.
-/

namespace Deliberation.Store

variable {now : Timestamp} {store after : Store} {id : Id}

def Linkable (store : Store) (source target : Id) : Prop :=
  ∃ parent child, store.ideas.get? source = some parent ∧ store.ideas.get? target = some child ∧
    parent.isLive ∧ child.isLive ∧ parent.discussion = child.discussion

def pushLink (row : LinkRow) (store : Store) : Store :=
  { store with links := store.links.push row }

def bury (now : Timestamp) (idea : Id) (store : Store) : Store :=
  { store with ideas := store.ideas.update idea (IdeaRow.deleted now) }

def inbound (store : Store) (idea : Id) : List (Id × LinkRow) :=
  store.liveLinks.filter fun entry => entry.2.target == idea

theorem inbound_nodup (store : Store) (idea : Id) : ((store.inbound idea).map (·.1)).Nodup := by
  have hentries : (store.inbound idea).Sublist store.links.entries :=
    List.filter_sublist.trans List.filter_sublist
  have hordered := (Table.pairwise_entries store.links).sublist (hentries.map (·.1))
  exact hordered.imp fun hless => Int.ne_of_lt hless

theorem mem_map_inbound_iff {idea link : Id} : link ∈ (store.inbound idea).map (·.1) ↔
    ∃ row, store.links.get? link = some row ∧ row.isLive ∧ row.target = idea := by
  simp [inbound, mem_liveLinks_iff, and_assoc]

/-- The ideas that lose a child when an idea is moved under `parent`. -/
def formerParents (store : Store) (idea parent : Id) : List Id :=
  ascending (((store.inbound idea).map (·.2.source)).filter
    fun source => source != parent && source != idea)

theorem formerParents_nodup (store : Store) (idea parent : Id) :
    (store.formerParents idea parent).Nodup :=
  (ascending_pairwise _).imp Int.ne_of_lt

theorem mem_formerParents_iff {idea parent source : Id} : source ∈ store.formerParents idea parent ↔
    (∃ link row, (link, row) ∈ store.inbound idea ∧ row.source = source) ∧ source ≠ parent ∧
      source ≠ idea := by
  simp [formerParents]

theorem parent_notMem_formerParents {idea parent : Id} : parent ∉ store.formerParents idea parent :=
  fun h => (mem_formerParents_iff.mp h).2.1 rfl

theorem linkedParents_nodup (store : Store) (idea : Id) : (store.linkedParents idea).Nodup :=
  (ascending_pairwise _).imp Int.ne_of_lt

theorem mem_linkedParents_iff {idea source : Id} : source ∈ store.linkedParents idea ↔
    (∃ link row, (link, row) ∈ store.inbound idea ∧ row.source = source) ∧ source ≠ idea := by
  simp [linkedParents, inbound]

/-- Only live ideas of one discussion pass for the ends of a link. -/
theorem linkable_of_requireLinkable {source target : Id} {u : Unit}
    (h : store.requireLinkable source target = .ok u) : store.Linkable source target := by
  simp only [requireLinkable, except_bind_eq_ok_iff, requireIdea_eq_ok_iff] at h
  obtain ⟨parent, ⟨parentRow, hparent, hreadParent⟩, child, ⟨childRow, hchild, hreadChild⟩, h⟩ := h
  rw [IdeaRow.isTombstone_of_read hreadParent, IdeaRow.isTombstone_of_read hreadChild] at h
  obtain ⟨-, -, -, -, -, -, hparentDiscussion, -⟩ := IdeaRow.read_eq_ok_iff.mp hreadParent
  obtain ⟨-, -, -, -, -, -, hchildDiscussion, -⟩ := IdeaRow.read_eq_ok_iff.mp hreadChild
  split at h
  · cases h
  · rename_i hparentLive
    split at h
    · cases h
    · rename_i hchildLive
      split at h
      · cases h
      · rename_i hsame
        refine ⟨parentRow, childRow, hparent, hchild, by simpa using hparentLive,
          by simpa using hchildLive, ?_⟩
        rw [← hparentDiscussion, ← hchildDiscussion]
        exact Decidable.not_not.mp hsame

theorem requireFinite_eq_ok_iff {order : Place} {u : Unit} :
    requireFinite order = .ok u ↔ order.nonFinite? = none := by
  unfold requireFinite
  cases order.nonFinite? with
  | none => simp
  | some nonFinite => simp

/-- A discussion has no root exactly if no row says that it is a live root of it. -/
theorem requireNoRoot_eq_ok_iff {discussion : Id} {u : Unit} :
    store.requireNoRoot discussion = .ok u ↔
      ∀ id row, store.ideas.get? id = some row → row.discussion = discussion →
        row.kind = .legible .root → row.isLive = false := by
  have hentry : store.rootEntry? discussion = none ↔
      ∀ id row, store.ideas.get? id = some row → row.discussion = discussion →
        row.kind = .legible .root → row.isLive = false := by
    simp [ rootEntry?, List.find?_eq_none, Table.mem_entries_iff]
  rw [← hentry]
  unfold requireNoRoot findRoot
  rw [except_bind_eq_ok_iff]
  cases hroot : store.rootEntry? discussion with
  | none => simp [answer, pure, Except.pure]
  | some entry =>
    simp only [answer_eq_ok_iff, option_mapM_eq_ok_iff, reduceCtorEq, false_and, false_or,
      iff_false]
    rintro ⟨-, ⟨-, idea, -, rfl, -⟩, h⟩
    cases h

/-- An idea is inserted into a discussion that exists, and as a root only if the discussion has no
live root. -/
theorem insertIdea_effect {new : NewIdea} (h : insertIdea now new store = (.ok id, after)) :
    (∃ row, store.discussions.get? new.discussion = some row) ∧
    (new.kind = .root → ∀ id row, store.ideas.get? id = some row →
      row.discussion = new.discussion → row.kind = .legible .root → row.isLive = false) ∧
    store.ideas.nextId = id ∧
      { store with ideas := store.ideas.push (.ofNew now new) } = after := by
  simp only [insertIdea, Attempt.bind_eq_ok_iff, Attempt.read_eq_ok_iff,
    requireDiscussion_eq_ok_iff] at h
  obtain ⟨_, _, ⟨hdiscussion, rfl⟩, h⟩ := h
  split at h
  · simp only [Attempt.bind_eq_ok_iff, Attempt.read_eq_ok_iff, requireNoRoot_eq_ok_iff, addIdea,
      addRow_eq_ok_iff] at h
    obtain ⟨_, _, ⟨hnone, rfl⟩, -, hid, hafter⟩ := h
    exact ⟨hdiscussion, fun _ => hnone, hid, hafter⟩
  · rename_i hkind
    obtain ⟨-, hid, hafter⟩ := addRow_eq_ok_iff.mp h
    exact ⟨hdiscussion, fun hroot => absurd hroot hkind, hid, hafter⟩

/-- A new discussion has a slug of its own, and its root idea is the one that is inserted with it.
-/
theorem createDiscussion_effect {new : NewDiscussion} {ids : Id × Id}
    (h : createDiscussion now new store = (.ok ids, after)) :
    (∀ known ∈ store.discussions.rows, known.slug ≠ new.slug) ∧
    (∀ id row, store.ideas.get? id = some row → row.discussion = store.discussions.nextId →
      row.kind = .legible .root → row.isLive = false) ∧
    ids = (store.discussions.nextId, store.ideas.nextId) ∧
    { store with
      discussions := store.discussions.push
        ⟨new.slug, new.topic, .legible new.locales, .legible now⟩
      ideas := store.ideas.push (.ofNew now (rootOf store.discussions.nextId new.topic)) } =
      after := by
  simp only [createDiscussion, Attempt.atomic_eq_ok_iff, Attempt.bind_eq_ok_iff,
    Attempt.pure_eq_ok_iff, addDiscussion_eq_ok_iff] at h
  obtain ⟨discussion, opened, ⟨hslug, -, rfl, rfl⟩, root, final, hroot, rfl, rfl⟩ := h
  obtain ⟨-, hnone, rfl, rfl⟩ := insertIdea_effect hroot
  exact ⟨hslug, hnone rfl, rfl, rfl⟩

/-- An update changes the row of a live idea and counts one modification. -/
theorem updateIdea_effect {patch : IdeaPatch} {version : Nat}
    (h : updateIdea now id patch store = (.ok version, after)) :
    ∃ row, store.ideas.get? id = some row ∧ row.isLive ∧
      row.version.next.read 0 = .ok version ∧
      { store with
        ideas := store.ideas.update id fun row => (row.patched patch).bumped now } = after := by
  simp only [updateIdea, Attempt.atomic_eq_ok_iff, Attempt.bind_eq_ok_iff, Attempt.read_eq_ok_iff,
    requireLiveIdea_eq_ok_iff, changeIdea_eq_ok_iff] at h
  obtain ⟨idea, _, ⟨⟨row, hrow, -, hlive⟩, rfl⟩, other, hother, hversion, rfl⟩ := h
  obtain rfl : row = other := Option.some.inj (hrow.symm.trans hother)
  exact ⟨row, hrow, hlive, hversion, rfl⟩

/-- A link is attached if there is room for it and the version of its source can be told. -/
theorem attach_eq_ok_iff {new : NewLink} {edit : LinkEdit} :
    attach now new store = (.ok edit, after) ↔
      ∃ row version, store.links.size < Table.capacity ∧
        store.ideas.get? new.source = some row ∧ row.version.next.read 0 = .ok version ∧
        ⟨store.links.nextId, new.source, version⟩ = edit ∧
        (store.pushLink (.ofNew now new)).touch now new.source = after := by
  simp only [attach, Attempt.bind_eq_ok_iff, Attempt.pure_eq_ok_iff, addLink, addRow_eq_ok_iff,
    bump_eq_ok_iff]
  constructor
  · rintro ⟨link, linked, ⟨hfits, rfl, rfl⟩, version, final, ⟨row, hrow, hversion, rfl⟩, hedit, rfl⟩
    exact ⟨row, version, hfits, hrow, hversion, hedit, rfl⟩
  · rintro ⟨row, version, hfits, hrow, hversion, hedit, rfl⟩
    exact ⟨_, _, ⟨hfits, rfl, rfl⟩, version, _, ⟨row, hrow, hversion, rfl⟩, hedit, rfl⟩

/-- A created link is finite in its order and joins two live ideas of one discussion. -/
theorem createLink_effect {new : NewLink} {edit : LinkEdit}
    (h : createLink now new store = (.ok edit, after)) :
    new.order.nonFinite? = none ∧ store.Linkable new.source new.target ∧
    ∃ row version, store.ideas.get? new.source = some row ∧
      row.version.next.read 0 = .ok version ∧
      ⟨store.links.nextId, new.source, version⟩ = edit ∧
      (store.pushLink (.ofNew now new)).touch now new.source = after := by
  simp only [createLink, Attempt.atomic_eq_ok_iff, Attempt.bind_eq_ok_iff,
    Attempt.ofExcept_eq_ok_iff, Attempt.read_eq_ok_iff, attach_eq_ok_iff] at h
  obtain ⟨_, _, ⟨hfinite, rfl⟩, _, _, ⟨hlinkable, rfl⟩, row, version, -, hrow, hversion, hedit,
    hafter⟩ := h
  exact ⟨requireFinite_eq_ok_iff.mp hfinite, linkable_of_requireLinkable hlinkable, row,
    version, hrow, hversion, hedit, hafter⟩

theorem tombstoneLink_effect {edit : LinkEdit}
    (h : tombstoneLink now id store = (.ok edit, after)) :
    ∃ link source version, store.links.get? id = some link ∧ link.isLive ∧
      store.ideas.get? link.source = some source ∧ source.version.next.read 0 = .ok version ∧
      ⟨id, link.source, version⟩ = edit ∧
      (store.removeLink now id).touch now link.source = after := by
  simp only [tombstoneLink, Attempt.atomic_eq_ok_iff, Attempt.bind_eq_ok_iff,
    Attempt.read_eq_ok_iff, Attempt.modify_eq_ok_iff, Attempt.pure_eq_ok_iff,
    requireLiveLink_eq_ok_iff, bump_eq_ok_iff] at h
  obtain ⟨link, _, ⟨⟨row, hrow, hread, hlive⟩, rfl⟩, _, _, rfl, version, _,
    ⟨source, hsource, hversion, rfl⟩, hedit, rfl⟩ := h
  obtain ⟨-, -, -, hends, -⟩ := LinkRow.read_eq_ok_iff.mp hread
  rw [hends] at hsource hedit ⊢
  exact ⟨row, source, version, hrow, hlive, hsource, hversion, hedit, rfl⟩

/-- A reordered link was live; it is removed, and another one with the same ends takes its part. -/
theorem reorderLink_effect {order : Place} {edit : LinkEdit}
    (h : reorderLink now id order store = (.ok edit, after)) :
    order.nonFinite? = none ∧
    ∃ link source version, store.links.get? id = some link ∧ link.isLive ∧
      store.ideas.get? link.source = some source ∧ source.version.next.read 0 = .ok version ∧
      ⟨store.links.nextId, link.source, version⟩ = edit ∧
      ((store.removeLink now id).pushLink
        (.ofNew now ⟨link.source, link.target, order, link.type⟩)).touch now link.source =
        after := by
  simp only [reorderLink, Attempt.atomic_eq_ok_iff, Attempt.bind_eq_ok_iff,
    Attempt.ofExcept_eq_ok_iff, Attempt.read_eq_ok_iff, Attempt.modify_eq_ok_iff,
    requireFinite_eq_ok_iff, requireLiveLink_eq_ok_iff, attach_eq_ok_iff] at h
  obtain ⟨_, _, ⟨hfinite, rfl⟩, link, _, ⟨⟨row, hrow, hread, hlive⟩, rfl⟩, _, _, rfl, source,
    version, -, hsource, hversion, hedit, rfl⟩ := h
  obtain ⟨-, -, -, hsourceEnd, htargetEnd, -, htype⟩ := LinkRow.read_eq_ok_iff.mp hread
  rw [hsourceEnd] at hsource hedit
  rw [hsourceEnd, htargetEnd, htype]
  refine ⟨hfinite, row, source, version, hrow, hlive, hsource, hversion, ?_, rfl⟩
  rw [← hedit, removeLink, Table.nextId_update]

/-- What can be moved under another idea is a live idea of its discussion that does not stand for
the discussion, and is another one. -/
theorem requireMovable_eq_ok {parent : Id} {u : Unit} (h : store.requireMovable id parent = .ok u) :
    parent ≠ id ∧ store.Linkable parent id ∧
      ∃ row, store.ideas.get? id = some row ∧ row.kind ≠ .legible .root := by
  simp only [requireMovable, except_bind_eq_ok_iff, requireLiveIdea_eq_ok_iff] at h
  obtain ⟨idea, ⟨row, hrow, hread, -⟩, h⟩ := h
  obtain ⟨hkind, -⟩ := IdeaRow.read_eq_ok_iff.mp hread
  split at h
  · cases h
  · rename_i hroot
    split at h
    · cases h
    · rename_i hother
      refine ⟨hother, linkable_of_requireLinkable h, row, hrow, ?_⟩
      intro hrootKind
      rw [hkind] at hrootKind
      exact hroot (by simpa [Idea.isRoot] using hrootKind)

/-- A move removes every link to the idea and attaches one; the new parent and all former ones count
a modification. -/
theorem moveIdea_effect {parent : Id} {order : Place} {move : Move}
    (h : moveIdea now id parent order store = (.ok move, after)) :
    order.nonFinite? = none ∧ parent ≠ id ∧ store.Linkable parent id ∧
    (∃ row, store.ideas.get? id = some row ∧ row.kind ≠ .legible .root) ∧
    (∃ version versions, versions.map (·.1) = store.formerParents id parent ∧
      TellsNext store.ideas (versions ++ [(parent, version)]) ∧
      ⟨⟨store.links.nextId, parent, version⟩, versions⟩ = move) ∧
    (((store.removeLinks now ((store.inbound id).map (·.1))).touchAll now
      (store.formerParents id parent)).pushLink
        (.ofNew now { source := parent, target := id, order })).touch now parent = after := by
  simp only [moveIdea, Attempt.atomic_eq_ok_iff, Attempt.bind_eq_ok_iff, Attempt.pure_eq_ok_iff,
    Attempt.ofExcept_eq_ok_iff, Attempt.read_eq_ok_iff, Attempt.modify_eq_ok_iff,
    requireFinite_eq_ok_iff, attach_eq_ok_iff] at h
  obtain ⟨_, _, ⟨hfinite, rfl⟩, _, _, ⟨hmovable, rfl⟩, links, _, ⟨hinbound, rfl⟩, _, _, rfl,
    versions, _, hbumps, edit, _, ⟨row, version, -, hrow, hversion, rfl, rfl⟩, rfl, rfl⟩ := h
  have hids : links.map (·.id) = (store.inbound id).map (·.1) :=
    map_of_readAll (fun _ _ _ hread => (LinkRow.read_eq_ok_iff.mp hread).2.2.1) hinbound
  have hsources : links.map (·.source) = (store.inbound id).map (·.2.source) :=
    map_of_readAll (fun _ _ _ hread => (LinkRow.read_eq_ok_iff.mp hread).2.2.2.1) hinbound
  rw [hids, hsources, foldl_removeLink] at hbumps
  have htold := bumpAll_tellsNext (formerParents_nodup store id parent) hbumps
  obtain ⟨rfl, hversions⟩ := bumpAll_eq_ok hbumps
  obtain ⟨hother, hlinkable, hkind⟩ := requireMovable_eq_ok hmovable
  have hparent : store.ideas.get? parent = some row :=
    (Table.get?_updateAll_of_notMem parent_notMem_formerParents).symm.trans hrow
  refine ⟨hfinite, hother, hlinkable, hkind, ⟨version, versions, hversions, ?_, ?_⟩, rfl⟩
  · intro entry hentry
    rcases List.mem_append.mp hentry with hformer | hlast
    · exact htold entry hformer
    · obtain rfl := List.mem_singleton.mp hlast
      exact ⟨row, hparent, hversion⟩
  · rw [touchAll, removeLinks, Table.nextId_updateAll]

/-- A cascade removes all links of the idea before it deletes the idea, and counts the modifications
of the former parents after that. -/
theorem cascade_effect {done : Cascade} (h : cascade now id store = (.ok done, after)) :
    id ∉ store.guarded ∧ done.idea = id ∧ done.parents.map (·.1) = store.linkedParents id ∧
    TellsNext store.ideas done.parents ∧
    ((store.removeLinksOf now id).bury now id).touchAll now (store.linkedParents id) = after := by
  simp only [cascade, Attempt.bind_eq_ok_iff, Attempt.state_eq_ok_iff, Attempt.modify_eq_ok_iff,
    Attempt.pure_eq_ok_iff] at h
  obtain ⟨_, _, ⟨rfl, rfl⟩, _, _, rfl, _, buried, hbury, versions, _, hbumps, rfl, rfl⟩ := h
  unfold deleteIdea at hbury
  split at hbury
  · cases hbury
  · rename_i hfree
    cases hbury
    have htold := bumpAll_tellsNext (linkedParents_nodup store id) hbumps
    obtain ⟨rfl, hversions⟩ := bumpAll_eq_ok hbumps
    refine ⟨by simpa [removeLinksOf] using hfree, rfl, hversions, ?_, rfl⟩
    refine htold.congr fun entry hentry => ?_
    have hmem : entry.1 ∈ store.linkedParents id := hversions ▸ List.mem_map_of_mem hentry
    rw [Table.get?_update, if_neg (mem_linkedParents_iff.mp hmem).2]
    rfl

/-- An idea that was deleted before is left alone; another one is deleted with its links, and its
parents count a modification. -/
theorem tombstoneIdea_effect {result : Option Cascade}
    (h : tombstoneIdea now id store = (.ok result, after)) :
    ∃ row, store.ideas.get? id = some row ∧ row.kind ≠ .legible .root ∧
      ((row.isLive = false ∧ result = none ∧ store = after) ∨
        (row.isLive ∧ ∃ done, result = some done ∧ id ∉ store.guarded ∧ done.idea = id ∧
          done.parents.map (·.1) = store.linkedParents id ∧
          TellsNext store.ideas done.parents ∧
          ((store.removeLinksOf now id).bury now id).touchAll now (store.linkedParents id) =
            after)) := by
  simp only [tombstoneIdea, Attempt.bind_eq_ok_iff, Attempt.read_eq_ok_iff,
    requireIdea_eq_ok_iff] at h
  obtain ⟨idea, _, ⟨⟨row, hrow, hread⟩, rfl⟩, h⟩ := h
  obtain ⟨hkind, -⟩ := IdeaRow.read_eq_ok_iff.mp hread
  split at h
  · exact absurd h Attempt.fail_ne_ok
  · rename_i hroot
    refine ⟨row, hrow, ?_, ?_⟩
    · intro hrootKind
      rw [hkind] at hrootKind
      exact hroot (by simpa [Idea.isRoot] using hrootKind)
    · rw [IdeaRow.isTombstone_of_read hread] at h
      split at h
      · rename_i hdead
        obtain ⟨rfl, rfl⟩ := Attempt.pure_eq_ok_iff.mp h
        exact Or.inl ⟨by simpa using hdead, rfl, rfl⟩
      · rename_i hlive
        simp only [Attempt.bind_eq_ok_iff, Attempt.mapError_eq_ok_iff, Attempt.atomic_eq_ok_iff,
          Attempt.pure_eq_ok_iff] at h
        obtain ⟨done, _, hcascade, rfl, rfl⟩ := h
        exact Or.inr ⟨by simpa using hlive, done, rfl, cascade_effect hcascade⟩

/-- The reply path of a new post is empty, or it goes on from the path of the post replied to. -/
theorem replyPath_eq_ok {new : NewPost} {path : String} (h : store.replyPath new = .ok path) :
    (new.parent = none ∧ path = "") ∨
    ∃ parent above, new.parent = some parent ∧ store.posts.get? parent = some above ∧
      above.discussion = new.discussion ∧ path = Ancestry.child above.ancestry parent := by
  unfold replyPath at h
  cases hparent : new.parent with
  | none =>
    simp only [hparent, except_pure_eq_ok_iff] at h
    exact Or.inl ⟨rfl, h.symm⟩
  | some parent =>
    simp only [hparent, except_bind_eq_ok_iff, requirePost_eq_ok_iff] at h
    obtain ⟨post, ⟨above, habove, hread⟩, h⟩ := h
    obtain ⟨-, -, hid, hdiscussion, -, -, hancestry, -⟩ := PostRow.read_eq_ok_iff.mp hread
    split at h
    · cases h
    · rename_i hsame
      refine Or.inr ⟨parent, above, rfl, habove, ?_, ?_⟩
      · rw [← hdiscussion]
        exact Decidable.not_not.mp hsame
      · rw [← hancestry, ← hid]
        exact (except_pure_eq_ok_iff.mp h).symm

/-- The row of a new post with its reply path. -/
def PostRow.ofNew (now : Timestamp) (new : NewPost) (ancestry : String) : PostRow where
  discussion := new.discussion
  kind := .legible new.kind
  creator := new.creator
  parent := new.parent
  ancestry := ancestry
  subject := new.subject
  body := new.body
  hidden := new.hidden
  created := .legible now

/-- A created post has the ancestry that follows from its parent, which is in the same discussion.
-/
theorem createPost_effect {new : NewPost} (h : createPost now new store = (.ok id, after)) :
    (∃ row, store.discussions.get? new.discussion = some row) ∧
    store.posts.size < Table.capacity ∧ store.posts.nextId = id ∧
    ∃ path, ((new.parent = none ∧ path = "") ∨
        ∃ parent above, new.parent = some parent ∧ store.posts.get? parent = some above ∧
          above.discussion = new.discussion ∧ path = Ancestry.child above.ancestry parent) ∧
      { store with posts := store.posts.push (.ofNew now new path) } = after := by
  simp only [createPost, Attempt.bind_eq_ok_iff, Attempt.read_eq_ok_iff,
    requireDiscussion_eq_ok_iff, addPost, addRow_eq_ok_iff] at h
  obtain ⟨_, _, ⟨hdiscussion, rfl⟩, path, _, ⟨hpath, rfl⟩, hfits, hid, hafter⟩ := h
  exact ⟨hdiscussion, hfits, hid, path, replyPath_eq_ok hpath, hafter⟩

/-- What a new tie has to meet: its post is there, an important tie is an extract, and an idea that
it names is a live one of the discussion of the post. -/
theorem requireTieable_eq_ok {new : NewContentLink} {u : Unit}
    (h : store.requireTieable new = .ok u) :
    ∃ post, store.posts.get? new.post = some post ∧ (new.important → new.kind = .extract) ∧
      ∀ idea, new.idea = some idea → ∃ row, store.ideas.get? idea = some row ∧ row.isLive ∧
        row.discussion = post.discussion := by
  simp only [requireTieable, except_bind_eq_ok_iff, requirePost_eq_ok_iff] at h
  obtain ⟨post, ⟨postRow, hpost, hreadPost⟩, h⟩ := h
  obtain ⟨-, -, -, hpostDiscussion, -⟩ := PostRow.read_eq_ok_iff.mp hreadPost
  split at h
  · cases h
  · rename_i hextract
    refine ⟨postRow, hpost, ?_, ?_⟩
    · intro himportant
      by_contra hother
      exact hextract ⟨himportant, hother⟩
    · intro idea hidea
      simp only [hidea, except_bind_eq_ok_iff, requireLiveIdea_eq_ok_iff] at h
      obtain ⟨found, ⟨row, hrow, hread, hlive⟩, h⟩ := h
      obtain ⟨-, -, -, -, -, -, hdiscussion, -⟩ := IdeaRow.read_eq_ok_iff.mp hread
      split at h
      · cases h
      · rename_i hsame
        refine ⟨row, hrow, hlive, ?_⟩
        rw [← hdiscussion, ← hpostDiscussion]
        exact Decidable.not_not.mp hsame

/-- A tie joins a post to a live idea of its discussion, or to none yet; only extracts are
important. -/
theorem linkContent_effect {new : NewContentLink}
    (h : linkContent now new store = (.ok id, after)) :
    (∃ post, store.posts.get? new.post = some post ∧ (new.important → new.kind = .extract) ∧
      ∀ idea, new.idea = some idea → ∃ row, store.ideas.get? idea = some row ∧ row.isLive ∧
        row.discussion = post.discussion) ∧
    store.contents.nextId = id ∧
    { store with
      contents := store.contents.push
        ⟨new.idea, new.post, new.kind, new.important, new.creator, now⟩ } = after := by
  simp only [linkContent, Attempt.bind_eq_ok_iff, Attempt.read_eq_ok_iff, addContent,
    addRow_eq_ok_iff] at h
  obtain ⟨_, _, ⟨htieable, rfl⟩, -, hid, hafter⟩ := h
  exact ⟨requireTieable_eq_ok htieable, hid, hafter⟩

theorem recordAction_effect {new : NewAction} (h : recordAction now new store = (.ok id, after)) :
    (∃ post, store.posts.get? new.post = some post) ∧ store.actions.nextId = id ∧
    { store with
      actions := store.actions.push ⟨new.kind, new.actor, new.post, now, none⟩ } = after := by
  simp only [recordAction, Attempt.bind_eq_ok_iff, Attempt.read_eq_ok_iff, requirePost_eq_ok_iff,
    addAction, addRow_eq_ok_iff] at h
  obtain ⟨_, _, ⟨⟨post, hpost, -⟩, rfl⟩, -, hid, hafter⟩ := h
  exact ⟨⟨post, hpost⟩, hid, hafter⟩

theorem retractAction_effect {u : Unit} (h : retractAction now id store = (.ok u, after)) :
    (∃ row, store.actions.get? id = some row ∧ row.isLive) ∧
    { store with actions := store.actions.update id (ActionRow.retracted now) } = after := by
  unfold retractAction isLiveAction at h
  cases hrow : store.actions.get? id with
  | none =>
    simp only [hrow, Bool.false_eq_true, if_false] at h
    cases h
  | some row =>
    simp only [hrow] at h
    split at h
    · rename_i hlive
      cases h
      exact ⟨⟨row, rfl, hlive⟩, rfl⟩
    · cases h

end Deliberation.Store
