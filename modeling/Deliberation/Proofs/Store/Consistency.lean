import Deliberation.Proofs.Store.Write
import Mathlib.Tactic.Spread

/-!
Consistency of the store, and the changes that keep it. A change says what it needs to know about
the store before it; whether the writes know that is another matter.
-/

namespace Deliberation.Store

variable {now : Timestamp} {store before after : Store}

/-- There is an idea with this id that stands for a discussion, deleted or not. -/
def IsRootOf (store : Store) (discussion root : Id) : Prop :=
  ∃ row, store.ideas.get? root = some row ∧ row.discussion = discussion ∧ row.kind = .legible .root

/-- A discussion has one root idea, which is live. -/
def HasOneRoot (store : Store) (discussion : Id) : Prop :=
  ∃ root, (∀ idea, store.IsRootOf discussion idea ↔ idea = root) ∧ store.isLiveIdea root

structure Consistent (store : Store) : Prop where
  links : ∀ id row, store.links.get? id = some row → row.isLive →
    store.Linkable row.source row.target
  roots : ∀ discussion row, store.discussions.get? discussion = some row →
    store.HasOneRoot discussion
  ties : ∀ id row idea, store.contents.get? id = some row → row.idea = some idea →
    ∃ named tied, store.ideas.get? idea = some named ∧ store.posts.get? row.post = some tied ∧
      named.discussion = tied.discussion
  extracts : ∀ id row, store.contents.get? id = some row → row.important → row.kind = .extract
  replies : ∀ id row parent, store.posts.get? id = some row → row.parent = some parent →
    parent < id ∧ ∃ above, store.posts.get? parent = some above ∧ above.discussion = row.discussion
  slugs : ∀ a b rowA rowB, store.discussions.get? a = some rowA →
    store.discussions.get? b = some rowB → rowA.slug = rowB.slug → a = b

/-- A consistent store in which every idea belongs to a discussion. A new discussion gets its root
by this: no idea belongs to it yet, deleted or not. -/
structure Sound (store : Store) : Prop extends Consistent store where
  homes : ∀ id row, store.ideas.get? id = some row →
    ∃ home, store.discussions.get? row.discussion = some home

theorem sound_empty : ({} : Store).Sound where
  links id row h := by simp at h
  roots discussion row h := by simp at h
  ties id row idea h := by simp at h
  extracts id row h := by simp at h
  replies id row parent h := by simp at h
  slugs a b rowA rowB h := by simp at h
  homes id row h := by simp at h

/-- A live link of a consistent store starts at a live idea. -/
theorem Consistent.isLive_source (h : store.Consistent) {link : Id} {row : LinkRow}
    (hrow : store.links.get? link = some row) (hlive : row.isLive) :
    ∃ parent, store.ideas.get? row.source = some parent ∧ parent.isLive := by
  obtain ⟨parent, -, hparent, -, hparentLive, -⟩ := h.links link row hrow hlive
  exact ⟨parent, hparent, hparentLive⟩

theorem Consistent.isLive_of_inbound (h : store.Consistent) {idea link : Id} {row : LinkRow}
    (hinbound : (link, row) ∈ store.inbound idea) :
    ∃ parent, store.ideas.get? row.source = some parent ∧ parent.isLive := by
  obtain ⟨hrow, hlive⟩ := mem_liveLinks_iff.mp (List.mem_filter.mp hinbound).1
  exact h.isLive_source hrow hlive

/-- What the ideas of one store are as ends of links, they are in another one too. -/
theorem Linkable.mono {source target : Id}
    (hkeeps : ∀ id row, (id = source ∨ id = target) → before.ideas.get? id = some row →
      row.isLive → ∃ other, after.ideas.get? id = some other ∧ other.isLive ∧
        other.discussion = row.discussion)
    (h : before.Linkable source target) : after.Linkable source target := by
  obtain ⟨parent, child, hparent, hchild, hparentLive, hchildLive, hsame⟩ := h
  obtain ⟨parent', hparent', hparentLive', hparentDiscussion⟩ :=
    hkeeps source parent (Or.inl rfl) hparent hparentLive
  obtain ⟨child', hchild', hchildLive', hchildDiscussion⟩ :=
    hkeeps target child (Or.inr rfl) hchild hchildLive
  exact ⟨parent', child', hparent', hchild', hparentLive', hchildLive',
    by rw [hparentDiscussion, hchildDiscussion, hsame]⟩

/-- What an idea is, apart from its words and its version. -/
def IdeaRow.standing (row : IdeaRow) : Id × Cell IdeaKind × Bool :=
  (row.discussion, row.kind, row.isLive)

/-- Two stores whose ideas differ in their words and versions at most. -/
def SameStanding (before after : Store) : Prop :=
  ∀ id, (before.ideas.get? id).map IdeaRow.standing = (after.ideas.get? id).map IdeaRow.standing

theorem SameStanding.symm (h : SameStanding before after) : SameStanding after before :=
  fun id => (h id).symm

theorem SameStanding.exists_row (h : SameStanding before after) {id : Id} {row : IdeaRow}
    (hrow : before.ideas.get? id = some row) :
    ∃ other, after.ideas.get? id = some other ∧ other.discussion = row.discussion ∧
      other.kind = row.kind ∧ other.isLive = row.isLive := by
  have hid := h id
  rw [hrow, Option.map_some, eq_comm, Option.map_eq_some_iff] at hid
  obtain ⟨other, hother, hsame⟩ := hid
  simp only [IdeaRow.standing, Prod.mk.injEq] at hsame
  exact ⟨other, hother, hsame⟩

theorem SameStanding.isRootOf (h : SameStanding before after) {discussion idea : Id}
    (hroot : before.IsRootOf discussion idea) : after.IsRootOf discussion idea := by
  obtain ⟨row, hrow, hdiscussion, hkind⟩ := hroot
  obtain ⟨other, hother, hsameDiscussion, hsameKind, -⟩ := h.exists_row hrow
  exact ⟨other, hother, hsameDiscussion.trans hdiscussion, hsameKind.trans hkind⟩

/-- Changes that leave the standing of ideas alone leave it alone which ideas can be linked. -/
theorem SameStanding.linkable (h : SameStanding before after) {source target : Id}
    (hends : before.Linkable source target) : after.Linkable source target := by
  refine hends.mono ?_
  intro id old _ hold holdLive
  obtain ⟨new, hnew, hdiscussion, -, hnewLive⟩ := h.exists_row hold
  exact ⟨new, hnew, hnewLive.trans holdLive, hdiscussion⟩

/-- A change of rows that keeps discussion, kind and life of an idea keeps its standing. -/
theorem sameStanding_update {idea : Id} {change : IdeaRow → IdeaRow}
    (hchange : ∀ row, (change row).standing = row.standing) :
    SameStanding store { store with ideas := store.ideas.update idea change } := by
  have hstanding : IdeaRow.standing ∘ change = IdeaRow.standing := funext hchange
  intro id
  rw [Table.get?_update]
  split
  · rw [Option.map_map, hstanding]
  · rfl

theorem sameStanding_touchAll (ideas : List Id) :
    SameStanding store (store.touchAll now ideas) := by
  have hmany : ∀ n, IdeaRow.standing ∘ (IdeaRow.bumped now)^[n] = IdeaRow.standing := by
    intro n
    induction n with
    | zero => rfl
    | succ n ih =>
      rw [Function.iterate_succ', ← Function.comp_assoc]
      exact ih
  intro id
  rw [touchAll, Table.get?_updateAll, Option.map_map, hmany]

/-- Words and versions of ideas do not matter. -/
theorem Sound.restand (h : before.Sound) (hideas : SameStanding before after)
    (hdiscussions : after.discussions = before.discussions) (hlinks : after.links = before.links)
    (hposts : after.posts = before.posts) (hcontents : after.contents = before.contents) :
    after.Sound where
  links id row hrow hlive := by
    rw [hlinks] at hrow
    exact hideas.linkable (h.links id row hrow hlive)
  roots discussion row hrow := by
    rw [hdiscussions] at hrow
    obtain ⟨root, hunique, hlive⟩ := h.roots discussion row hrow
    have hroot : ∀ idea, after.IsRootOf discussion idea ↔ before.IsRootOf discussion idea :=
      fun idea => ⟨hideas.symm.isRootOf, hideas.isRootOf⟩
    refine ⟨root, fun idea => (hroot idea).trans (hunique idea), ?_⟩
    obtain ⟨old, hold, holdLive⟩ := isLiveIdea_iff.mp hlive
    obtain ⟨new, hnew, -, -, hnewLive⟩ := hideas.exists_row hold
    exact isLiveIdea_iff.mpr ⟨new, hnew, hnewLive.trans holdLive⟩
  ties id row idea hrow hidea := by
    rw [hcontents] at hrow
    obtain ⟨named, tied, hnamed, htied, hsame⟩ := h.ties id row idea hrow hidea
    obtain ⟨new, hnew, hdiscussion, -, -⟩ := hideas.exists_row hnamed
    exact ⟨new, tied, hnew, hposts ▸ htied, hdiscussion.trans hsame⟩
  extracts id row hrow := by
    rw [hcontents] at hrow
    exact h.extracts id row hrow
  replies id row parent hrow hparent := by
    rw [hposts] at hrow ⊢
    exact h.replies id row parent hrow hparent
  slugs a b rowA rowB hA hB := by
    rw [hdiscussions] at hA hB
    exact h.slugs a b rowA rowB hA hB
  homes id row hrow := by
    obtain ⟨old, hold, hdiscussion, -, -⟩ := hideas.symm.exists_row hrow
    rw [hdiscussions, ← hdiscussion]
    exact h.homes id old hold

/-- Links may go. -/
theorem Sound.dropLinks (h : store.Sound) {links : Table LinkRow}
    (hold : ∀ id row, links.get? id = some row → row.isLive → store.links.get? id = some row) :
    { store with links }.Sound where
  __ := h
  links id row hrow hlive := h.links id row (hold id row hrow hlive) hlive

theorem Sound.touch (h : store.Sound) (idea : Id) : (store.touch now idea).Sound :=
  h.restand (sameStanding_update fun _ => rfl) rfl rfl rfl rfl

theorem Sound.touchAll (h : store.Sound) (ideas : List Id) : (store.touchAll now ideas).Sound :=
  h.restand (sameStanding_touchAll ideas) rfl rfl rfl rfl

/-- What is live after some links have been removed was there before, and is none of them. -/
theorem get?_removeLinks {links : List Id} {id : Id} {row : LinkRow}
    (h : (store.removeLinks now links).links.get? id = some row) (hlive : row.isLive) :
    store.links.get? id = some row ∧ id ∉ links := by
  rw [removeLinks, Table.get?_updateAll] at h
  cases hcount : links.count id with
  | zero =>
    rw [hcount] at h
    exact ⟨by simpa using h, List.count_eq_zero.mp hcount⟩
  | succ n =>
    rw [hcount] at h
    obtain ⟨old, -, rfl⟩ := Option.map_eq_some_iff.mp h
    rw [Function.iterate_succ_apply'] at hlive
    cases hlive

theorem Sound.removeLinks (h : store.Sound) (links : List Id) :
    (store.removeLinks now links).Sound :=
  h.dropLinks fun _ _ hrow hlive => (get?_removeLinks hrow hlive).1

theorem Sound.removeLink (h : store.Sound) (link : Id) : (store.removeLink now link).Sound :=
  h.removeLinks [link]

/-- Removing the links of an idea leaves no live link that touches it. -/
theorem get?_removeLinksOf {idea id : Id} {row : LinkRow}
    (h : (store.removeLinksOf now idea).links.get? id = some row) (hlive : row.isLive) :
    store.links.get? id = some row ∧ ¬ row.touches idea := by
  rw [removeLinksOf, Table.get?_mapRows] at h
  obtain ⟨old, hold, hchange⟩ := Option.map_eq_some_iff.mp h
  split at hchange
  · subst hchange
    cases hlive
  · rename_i hkept
    subst hchange
    exact ⟨hold, fun htouches => hkept (by simp [hlive, htouches])⟩

theorem Sound.removeLinksOf (h : store.Sound) (idea : Id) :
    (store.removeLinksOf now idea).Sound :=
  h.dropLinks fun _ _ hrow hlive => (get?_removeLinksOf hrow hlive).1

theorem Sound.pushLink (h : store.Sound) {row : LinkRow}
    (hrow : store.Linkable row.source row.target) : (store.pushLink row).Sound where
  __ := h
  links id other hother hlive := by
    rcases Table.get?_push_eq_some_iff.mp hother with ⟨-, rfl⟩ | hold
    · exact hrow
    · exact h.links id other hold hlive

/-- An idea that is no root and has no live links may be deleted. -/
theorem Sound.bury (h : store.Sound) {idea : Id} {row : IdeaRow}
    (hrow : store.ideas.get? idea = some row) (hkind : row.kind ≠ .legible .root)
    (hfree : ∀ id link, store.links.get? id = some link → link.isLive → ¬ link.touches idea) :
    (store.bury now idea).Sound := by
  have hother : ∀ id, id ≠ idea → (store.bury now idea).ideas.get? id = store.ideas.get? id := by
    intro id hne
    rw [Store.bury, Table.get?_update, if_neg hne]
  have hburied : (store.bury now idea).ideas.get? idea = some (row.deleted now) := by
    rw [Store.bury, Table.get?_update, if_pos rfl, hrow]
    rfl
  have hroot : ∀ discussion id, (store.bury now idea).IsRootOf discussion id ↔
      store.IsRootOf discussion id := by
    intro discussion id
    unfold IsRootOf
    by_cases hid : id = idea
    · subst hid
      rw [hburied, hrow]
      simp [IdeaRow.deleted, IdeaRow.bumped]
    · rw [hother id hid]
  have hkeeps : ∀ id old, store.ideas.get? id = some old → ∃ new,
      (store.bury now idea).ideas.get? id = some new ∧ new.discussion = old.discussion := by
    intro id old hold
    by_cases hid : id = idea
    · subst hid
      obtain rfl : row = old := Option.some.inj (hrow.symm.trans hold)
      exact ⟨_, hburied, rfl⟩
    · exact ⟨old, (hother id hid).trans hold, rfl⟩
  constructor
  · constructor
    · intro id link hlink hlive
      refine (h.links id link hlink hlive).mono ?_
      rintro ending old hend hold holdLive
      have hne : ending ≠ idea := by
        rintro rfl
        apply hfree id link hlink hlive
        rcases hend with rfl | rfl
        · simp [LinkRow.touches]
        · simp [LinkRow.touches]
      exact ⟨old, (hother ending hne).trans hold, holdLive, rfl⟩
    · intro discussion found hfound
      obtain ⟨root, hunique, hlive⟩ := h.roots discussion found hfound
      refine ⟨root, fun id => (hroot discussion id).trans (hunique id), ?_⟩
      have hne : root ≠ idea := by
        rintro rfl
        obtain ⟨rootRow, hrootRow, -, hrootKind⟩ := (hunique root).mpr rfl
        obtain rfl : row = rootRow := Option.some.inj (hrow.symm.trans hrootRow)
        exact hkind hrootKind
      obtain ⟨rootRow, hrootRow, hrootLive⟩ := isLiveIdea_iff.mp hlive
      exact isLiveIdea_iff.mpr ⟨rootRow, (hother root hne).trans hrootRow, hrootLive⟩
    · intro id tie named htie hnamed
      obtain ⟨old, tied, hold, htied, hsame⟩ := h.ties id tie named htie hnamed
      obtain ⟨new, hnew, hdiscussion⟩ := hkeeps named old hold
      exact ⟨new, tied, hnew, htied, hdiscussion.trans hsame⟩
    · exact h.extracts
    · exact h.replies
    · exact h.slugs
  · intro id new hnew
    by_cases hid : id = idea
    · subst hid
      obtain rfl : row.deleted now = new := Option.some.inj (hburied.symm.trans hnew)
      exact h.homes id row hrow
    · exact h.homes id new ((hother id hid).symm.trans hnew)

/-- A new idea does not disturb the root of a discussion, unless it is another one. -/
theorem HasOneRoot.push {discussion : Id} {row : IdeaRow} (h : before.HasOneRoot discussion)
    (hideas : after.ideas = before.ideas.push row)
    (hother : row.discussion = discussion → row.kind ≠ .legible .root) :
    after.HasOneRoot discussion := by
  obtain ⟨root, hunique, hlive⟩ := h
  refine ⟨root, fun idea => Iff.trans ?_ (hunique idea), ?_⟩
  · constructor
    · rintro ⟨new, hnew, hdiscussion, hkind⟩
      rw [hideas] at hnew
      rcases Table.get?_push_eq_some_iff.mp hnew with ⟨-, rfl⟩ | hold
      · exact absurd hkind (hother hdiscussion)
      · exact ⟨new, hold, hdiscussion, hkind⟩
    · rintro ⟨old, hold, hrest⟩
      rw [IsRootOf, hideas]
      exact ⟨old, Table.get?_push_of_some hold, hrest⟩
  · obtain ⟨rootRow, hrootRow, hrootLive⟩ := isLiveIdea_iff.mp hlive
    rw [isLiveIdea_iff, hideas]
    exact ⟨rootRow, Table.get?_push_of_some hrootRow, hrootLive⟩

/-- An idea that is no root may join any discussion. -/
theorem Sound.pushIdea (h : store.Sound) {row : IdeaRow} (hkind : row.kind ≠ .legible .root)
    (hhome : ∃ home, store.discussions.get? row.discussion = some home) :
    { store with ideas := store.ideas.push row }.Sound where
  __ := h
  links id link hlink hlive := by
    refine (h.links id link hlink hlive).mono ?_
    intro idea old _ hold holdLive
    exact ⟨old, Table.get?_push_of_some hold, holdLive, rfl⟩
  roots discussion found hfound := (h.roots discussion found hfound).push rfl fun _ => hkind
  ties id tie idea htie hidea := by
    obtain ⟨named, tied, hnamed, hrest⟩ := h.ties id tie idea htie hidea
    exact ⟨named, tied, Table.get?_push_of_some hnamed, hrest⟩
  homes id new hnew := by
    rcases Table.get?_push_eq_some_iff.mp hnew with ⟨-, rfl⟩ | hold
    · exact hhome
    · exact h.homes id new hold

/-- A discussion with a new slug may be opened, together with a live root idea. -/
theorem Sound.openDiscussion (h : store.Sound) {opened : DiscussionRow} {row : IdeaRow}
    (hslug : ∀ known ∈ store.discussions.rows, known.slug ≠ opened.slug)
    (hdiscussion : row.discussion = store.discussions.nextId) (hkind : row.kind = .legible .root)
    (hlive : row.isLive) :
    { store with
      discussions := store.discussions.push opened
      ideas := store.ideas.push row }.Sound where
  __ := h
  links id link hlink hlinkLive := by
    refine (h.links id link hlink hlinkLive).mono ?_
    intro idea old _ hold holdLive
    exact ⟨old, Table.get?_push_of_some hold, holdLive, rfl⟩
  roots discussion found hfound := by
    rcases Table.get?_push_eq_some_iff.mp hfound with ⟨rfl, -⟩ | hold
    · refine ⟨store.ideas.nextId, fun id => ⟨?_, ?_⟩, ?_⟩
      · rintro ⟨new, hnew, hhere, -⟩
        rcases Table.get?_push_eq_some_iff.mp hnew with ⟨rfl, -⟩ | hold
        · rfl
        · obtain ⟨home, hhome⟩ := h.homes id new hold
          rw [hhere] at hhome
          exact absurd rfl (Table.ne_nextId hhome)
      · rintro rfl
        exact ⟨row, Table.get?_push_nextId, hdiscussion, hkind⟩
      · exact isLiveIdea_iff.mpr ⟨row, Table.get?_push_nextId, hlive⟩
    · refine (h.roots discussion found hold).push rfl fun hhere => ?_
      exact absurd (hhere.symm.trans hdiscussion) (Table.ne_nextId hold)
  ties id tie idea htie hidea := by
    obtain ⟨named, tied, hnamed, hrest⟩ := h.ties id tie idea htie hidea
    exact ⟨named, tied, Table.get?_push_of_some hnamed, hrest⟩
  slugs a b rowA rowB hA hB hsame := by
    rcases Table.get?_push_eq_some_iff.mp hA with ⟨rfl, rfl⟩ | holdA
    · rcases Table.get?_push_eq_some_iff.mp hB with ⟨rfl, -⟩ | holdB
      · rfl
      · exact absurd hsame.symm (hslug rowB (Table.mem_rows_iff.mpr ⟨b, holdB⟩))
    · rcases Table.get?_push_eq_some_iff.mp hB with ⟨rfl, rfl⟩ | holdB
      · exact absurd hsame (hslug rowA (Table.mem_rows_iff.mpr ⟨a, holdA⟩))
      · exact h.slugs a b rowA rowB holdA holdB hsame
  homes id new hnew := by
    rcases Table.get?_push_eq_some_iff.mp hnew with ⟨-, rfl⟩ | hold
    · rw [hdiscussion]
      exact ⟨opened, Table.get?_push_nextId⟩
    · obtain ⟨home, hhome⟩ := h.homes id new hold
      exact ⟨home, Table.get?_push_of_some hhome⟩

theorem Sound.pushPost (h : store.Sound) {row : PostRow}
    (hparent : ∀ parent, row.parent = some parent → ∃ above,
      store.posts.get? parent = some above ∧ above.discussion = row.discussion) :
    { store with posts := store.posts.push row }.Sound where
  __ := h
  ties id tie idea htie hidea := by
    obtain ⟨named, tied, hnamed, htied, hsame⟩ := h.ties id tie idea htie hidea
    exact ⟨named, tied, hnamed, Table.get?_push_of_some htied, hsame⟩
  replies id post parent hpost hreply := by
    rcases Table.get?_push_eq_some_iff.mp hpost with ⟨rfl, rfl⟩ | hold
    · obtain ⟨above, habove, hsame⟩ := hparent parent hreply
      exact ⟨Table.lt_nextId habove, above, Table.get?_push_of_some habove, hsame⟩
    · obtain ⟨hless, above, habove, hsame⟩ := h.replies id post parent hold hreply
      exact ⟨hless, above, Table.get?_push_of_some habove, hsame⟩

theorem Sound.pushContent (h : store.Sound) {row : ContentRow}
    (hextract : row.important → row.kind = .extract)
    (hidea : ∀ idea, row.idea = some idea → ∃ named tied, store.ideas.get? idea = some named ∧
      store.posts.get? row.post = some tied ∧ named.discussion = tied.discussion) :
    { store with contents := store.contents.push row }.Sound where
  __ := h
  ties id tie idea htie hnames := by
    rcases Table.get?_push_eq_some_iff.mp htie with ⟨-, rfl⟩ | hold
    · exact hidea idea hnames
    · exact h.ties id tie idea hold hnames
  extracts id tie htie himportant := by
    rcases Table.get?_push_eq_some_iff.mp htie with ⟨-, rfl⟩ | hold
    · exact hextract himportant
    · exact h.extracts id tie hold himportant

/-- Actions do not matter. -/
theorem Sound.withActions (h : store.Sound) (actions : Table ActionRow) :
    { store with actions }.Sound where
  __ := h

end Deliberation.Store
