import Deliberation.Proofs.Store.Legible
import Deliberation.Store.Content
import Mathlib.Data.List.Perm.Basic

/-!
Stores whose readers do not fail. The cells of all rows have to mean something, and the versions of
live ideas have to be small enough to be told; those of deleted ideas matter only to whoever asks
for one of these.
-/

namespace Deliberation.Store

/-- The versions of all live ideas can be told. -/
def TellsLiveVersions (store : Store) : Prop :=
  ∀ id row, store.ideas.get? id = some row → row.isLive →
    ∃ version, row.version.read 10 = .ok version

structure Readable (store : Store) : Prop where
  discussion : ∀ id, ∃ found, store.findDiscussion id = .ok found
  link : ∀ id, ∃ found, store.findLink id = .ok found
  post : ∀ id, ∃ found, store.findPost id = .ok found
  posts : ∀ ids, ∃ found, store.findPosts ids = .ok found
  root : ∀ discussion, ∃ found, store.findRoot discussion = .ok found
  discussionIdeas : ∀ discussion, ∃ found, store.discussionIdeas discussion = .ok found
  discussionLinks : ∀ discussion, ∃ found, store.discussionLinks discussion = .ok found
  children : ∀ idea, ∃ found, store.children idea = .ok found
  parents : ∀ idea, ∃ found, store.parents idea = .ok found
  firstParentLink : ∀ idea, ∃ found, store.firstParentLink idea = .ok found
  siblings : ∀ idea, ∃ found, store.siblings idea = .ok found
  ideasOfThread : ∀ post, ∃ found, store.ideasOfThread post = .ok found

variable {store : Store}

theorem Legible.exists_readIdea (h : store.Legible) (hversions : store.TellsLiveVersions) {id : Id}
    {row : IdeaRow} (hrow : store.ideas.get? id = some row) (hlive : row.isLive) :
    ∃ idea, row.read id = .ok idea := by
  obtain ⟨version, hversion⟩ := hversions id row hrow hlive
  exact (h.ideas id row hrow).exists_read id hversion

/-- The rows of live ideas can be read, wherever their ids come from. -/
theorem Legible.exists_readIdeas (h : store.Legible) (hversions : store.TellsLiveVersions)
    {ids : List Id} (hlive : ∀ id ∈ ids, store.isLiveIdea id) :
    ∃ ideas, readAll IdeaRow.read (store.ideaEntries ids) = .ok ideas := by
  refine exists_readAll ?_
  rintro ⟨id, row⟩ hentry
  obtain ⟨again, hmem, hfound⟩ := List.mem_filterMap.mp hentry
  obtain ⟨_, hrow, heq⟩ := Option.map_eq_some_iff.mp hfound
  obtain ⟨rfl, rfl⟩ := Prod.mk.inj heq
  obtain ⟨live, hliveRow, hrowLive⟩ := isLiveIdea_iff.mp (hlive _ hmem)
  obtain rfl := Option.some.inj (hrow.symm.trans hliveRow)
  exact h.exists_readIdea hversions hrow hrowLive

theorem Legible.exists_readLink (h : store.Legible) {entry : Id × LinkRow}
    (hentry : entry ∈ store.liveLinks) : ∃ link, entry.2.read entry.1 = .ok link :=
  (h.links _ _ (mem_liveLinks_iff.mp hentry).1).exists_read _

theorem Legible.exists_findPost (h : store.Legible) (id : Id) :
    ∃ found, store.findPost id = .ok found :=
  exists_find (fun id row hrow => (h.posts id row hrow).exists_read id) id

/-- The children of any idea can be read: they are live, so their versions can be told. -/
theorem Legible.exists_children (h : store.Legible) (hversions : store.TellsLiveVersions)
    (idea : Id) : ∃ found, store.children idea = .ok found := by
  refine h.exists_readIdeas hversions ?_
  intro id hid
  obtain ⟨entry, hentry, rfl⟩ := List.mem_map.mp hid
  have hfound := (List.mem_filter.mp (List.mem_mergeSort.mp hentry)).2
  simp only [Bool.and_eq_true] at hfound
  exact hfound.2

theorem Legible.exists_parents (h : store.Legible) (hversions : store.TellsLiveVersions)
    (idea : Id) : ∃ found, store.parents idea = .ok found := by
  refine h.exists_readIdeas hversions ?_
  intro id hid
  obtain ⟨entry, hentry, rfl⟩ := List.mem_map.mp hid
  have hfound := (List.mem_filter.mp hentry).2
  simp only [Bool.and_eq_true] at hfound
  exact hfound.2

/-- A legible store that tells the versions of its live ideas can be read throughout. -/
theorem Legible.readable (h : store.Legible) (hversions : store.TellsLiveVersions) :
    store.Readable where
  discussion := exists_find fun id row hrow => (h.discussions id row hrow).exists_read id
  link := exists_find fun id row hrow => (h.links id row hrow).exists_read id
  post := h.exists_findPost
  posts ids := by
    refine exists_readAll ?_
    rintro ⟨id, row⟩ hentry
    exact (h.posts id row (Table.mem_entries_iff.mp (List.mem_filter.mp hentry).1)).exists_read id
  root discussion := by
    refine exists_answer_mapM ?_
    rintro ⟨id, row⟩ hentry
    have hfound := List.find?_some hentry
    simp only [Bool.and_eq_true] at hfound
    have hrow := Table.mem_entries_iff.mp (List.mem_of_find?_eq_some hentry)
    exact h.exists_readIdea hversions hrow hfound.2
  discussionIdeas discussion := by
    refine exists_readAll ?_
    rintro ⟨id, row⟩ hentry
    obtain ⟨hmem, hfound⟩ := List.mem_filter.mp hentry
    simp only [Bool.and_eq_true] at hfound
    exact h.exists_readIdea hversions (Table.mem_entries_iff.mp hmem) hfound.2
  discussionLinks discussion :=
    exists_readAll fun _ hentry => h.exists_readLink (List.mem_filter.mp hentry).1
  children := h.exists_children hversions
  parents := h.exists_parents hversions
  firstParentLink idea :=
    exists_answer_mapM fun _ hentry => h.exists_readLink
      (List.mem_filter.mp (List.mem_of_mem_head? hentry)).1
  siblings idea := by
    obtain ⟨parents, hparents⟩ := h.exists_parents hversions idea
    have hchildren : ∀ parent ∈ parents, ∃ found, store.children parent.id = .ok found :=
      fun parent _ => h.exists_children hversions parent.id
    obtain ⟨families, hfamilies⟩ := exists_mapM hchildren
    simp only [Store.siblings, except_bind_eq_ok_iff, except_pure_eq_ok_iff]
    exact ⟨_, parents, hparents, families, hfamilies, rfl⟩
  ideasOfThread post := by
    obtain ⟨found, hfound⟩ := h.exists_findPost post
    unfold Store.ideasOfThread
    rw [hfound]
    cases found with
    | none => exact ⟨_, rfl⟩
    | some found => exact ⟨_, rfl⟩

/-- Looking for posts that are there finds each of them once, as it is stored. -/
theorem Legible.exists_findPosts (h : store.Legible) {ids : List Id}
    (hordered : ids.Pairwise (· < ·)) (hthere : ∀ id ∈ ids, ∃ row, store.posts.get? id = some row) :
    ∃ posts, store.findPosts ids = .ok posts ∧ posts.map (·.id) = ids ∧
      ∀ post ∈ posts, store.findPost post.id = .ok (some post) := by
  obtain ⟨posts, hposts⟩ : ∃ posts, store.findPosts ids = .ok posts := by
    refine exists_readAll ?_
    rintro ⟨id, row⟩ hentry
    exact (h.posts id row (Table.mem_entries_iff.mp (List.mem_filter.mp hentry).1)).exists_read id
  have hids :
      posts.map (·.id) = (store.posts.entries.filter fun entry => ids.contains entry.1).map (·.1) :=
    map_of_readAll (fun _ _ _ hread => (PostRow.read_eq_ok_iff.mp hread).2.2.1) hposts
  refine ⟨posts, hposts, ?_, fun post hpost => ?_⟩
  · have hfound :
        ((store.posts.entries.filter fun entry => ids.contains entry.1).map (·.1)).Pairwise
          (· < ·) :=
      (Table.pairwise_entries store.posts).sublist (List.filter_sublist.map _)
    rw [hids]
    refine List.Perm.eq_of_pairwise (fun a b _ _ hab hba => absurd hab (Int.lt_asymm hba))
      hfound hordered ?_
    refine (List.perm_ext_iff_of_nodup (hfound.imp Int.ne_of_lt) (hordered.imp Int.ne_of_lt)).mpr
      fun id => ?_
    simp only [List.mem_map, List.mem_filter, List.contains_iff_mem, Prod.exists, exists_and_right,
      exists_eq_right, Table.mem_entries_iff]
    exact ⟨fun hfound => hfound.2, fun hid => ⟨hthere id hid, hid⟩⟩
  · obtain ⟨⟨id, row⟩, hentry, hread⟩ := mem_of_readAll hposts hpost
    obtain rfl : post.id = id := (PostRow.read_eq_ok_iff.mp hread).2.2.1
    exact find_eq_ok_some_iff.mpr
      ⟨row, Table.mem_entries_iff.mp (List.mem_filter.mp hentry).1, hread⟩

/-- Ideas that are as they are stored are told by their ids. -/
theorem perm_of_map_id {ideas others : List Idea}
    (hideas : ∀ idea ∈ ideas, store.findIdea idea.id = .ok (some idea))
    (hothers : ∀ idea ∈ others, store.findIdea idea.id = .ok (some idea))
    (hids : (ideas.map (·.id)).Perm (others.map (·.id))) : ideas.Perm others := by
  have hread (l : List Idea) (h : ∀ idea ∈ l, store.findIdea idea.id = .ok (some idea)) :
      (l.map (·.id)).map store.findIdea = l.map fun idea => .ok (some idea) := by
    rw [List.map_map]
    exact List.map_congr_left h
  have hfound := hids.map store.findIdea
  rw [hread ideas hideas, hread others hothers] at hfound
  refine (List.map_perm_map_iff fun idea other hsame => ?_).mp hfound
  exact Option.some.inj (Except.ok.inj hsame)

/-- A live idea can be changed as long as its row is legible and its version can be raised. -/
theorem updateIdea_progress {now : Timestamp} {id : Id} {patch : IdeaPatch} {row : IdeaRow}
    {version next : Nat} (hrow : store.ideas.get? id = some row) (hlive : row.isLive)
    (hlegible : row.IsLegible) (hversion : row.version.read 10 = .ok version)
    (hnext : row.version.next.read 0 = .ok next) :
    updateIdea now id patch store = (.ok next, { store with
      ideas := store.ideas.update id fun row => (row.patched patch).bumped now }) := by
  obtain ⟨idea, hread⟩ := hlegible.exists_read id hversion
  refine Attempt.atomic_eq_ok_iff.mpr (Attempt.bind_eq_ok_iff.mpr ⟨idea, store, ?_, ?_⟩)
  · exact Attempt.read_eq_ok_iff.mpr ⟨requireLiveIdea_eq_ok_iff.mpr ⟨row, hrow, hread, hlive⟩, rfl⟩
  · exact changeIdea_eq_ok_iff.mpr ⟨row, hrow, hnext, rfl⟩

end Deliberation.Store
