import Deliberation.Proofs.Closure.Linked
import Deliberation.Proofs.Store.Readable

/-!
What deleting an idea does to the store, row by row. Its live links die with it, and the ideas that
such a link led from lose a child, which is counted once for each of them. Nothing else changes, and
links that were dead before keep their dates.
-/

namespace Deliberation.Store

variable {now : Timestamp} {store : Store} {idea gone parent : Id}

/-- A version that is told is the whole number that is stored. -/
theorem Version.read_eq_ok {version : Version} {column n : Nat} (h : version.read column = .ok n) :
    version = .whole n ∧ n < 4294967296 := by
  cases version with
  | whole stored =>
    by_cases hfits : 0 ≤ stored ∧ stored < 4294967296
    · simp only [read, if_pos hfits, Except.ok.injEq] at h
      obtain rfl := h
      rw [Int.toNat_of_nonneg hfits.1]
      exact ⟨rfl, by omega⟩
    · simp only [read, if_neg hfits, reduceCtorEq] at h
  | floating x => cases h
  | illegible text => cases h

/-- Another idea that a live link leads from to an idea. -/
def IsParentOf (store : Store) (parent idea : Id) : Prop := parent ≠ idea ∧ store.Linked parent idea

/-- The parents that a deletion tells are those with a live link to the idea. -/
theorem mem_linkedParents_iff_isParentOf :
    parent ∈ store.linkedParents idea ↔ store.IsParentOf parent idea := by
  rw [mem_linkedParents_iff, IsParentOf, and_comm]
  refine and_congr_right fun _ => ?_
  simp only [inbound, List.mem_filter, mem_liveLinks_iff, beq_iff_eq, Linked]
  constructor
  · rintro ⟨link, row, ⟨⟨hrow, hlive⟩, htarget⟩, hsource⟩
    exact ⟨link, row, hrow, hlive, hsource, htarget⟩
  · rintro ⟨link, row, hrow, hlive, hsource, htarget⟩
    exact ⟨link, row, ⟨⟨hrow, hlive⟩, htarget⟩, hsource⟩

structure IsDeletion (now : Timestamp) (gone : Id) (before after : Store) : Prop where
  discussions : after.discussions = before.discussions
  posts : after.posts = before.posts
  contents : after.contents = before.contents
  actions : after.actions = before.actions
  guarded : after.guarded = before.guarded
  deleted : ∃ (row : IdeaRow) (version : Nat), before.ideas.get? gone = some row ∧ row.isLive ∧
    row.version = .whole version ∧ after.ideas.get? gone = some { row with
      modified := .legible now
      tombstone := some (.legible now)
      version := .whole (version + 1 : Nat) }
  /-- The version of each parent is one higher, however many links led from it to the idea. -/
  parents : ∀ parent, before.IsParentOf parent gone → ∃ (row : IdeaRow) (version : Nat),
    before.ideas.get? parent = some row ∧ row.version = .whole version ∧
      after.ideas.get? parent = some { row with
        modified := .legible now
        version := .whole (version + 1 : Nat) }
  others : ∀ idea, idea ≠ gone → ¬ before.IsParentOf idea gone →
    after.ideas.get? idea = before.ideas.get? idea
  removed : ∀ link row, before.links.get? link = some row → row.isLive → row.source = gone ∨
    row.target = gone → after.links.get? link = some { row with tombstone := some (.legible now) }
  links : ∀ link, (∀ row, before.links.get? link = some row → row.isLive → row.source ≠ gone ∧
    row.target ≠ gone) → after.links.get? link = before.links.get? link

/-- The row of an idea with a version that can be told is counted up by one. -/
theorem IdeaRow.bumped_of_read (now : Timestamp) {row : IdeaRow} {column version : Nat}
    (h : row.version.read column = .ok version) :
    row.version = .whole version ∧ row.bumped now = { row with
      modified := .legible now
      version := .whole (version + 1 : Nat) } := by
  obtain ⟨hversion, hfits⟩ := Version.read_eq_ok h
  refine ⟨hversion, ?_⟩
  rw [bumped, hversion, Version.next_whole hfits]

theorem get?_cascade_of_parent (hparent : parent ∈ store.linkedParents gone) :
    (((store.removeLinksOf now gone).bury now gone).touchAll now
      (store.linkedParents gone)).ideas.get? parent =
      (store.ideas.get? parent).map (IdeaRow.bumped now) := by
  have hother : parent ≠ gone := (mem_linkedParents_iff.mp hparent).2
  rw [touchAll, Table.get?_updateAll_of_mem (linkedParents_nodup store gone) hparent, bury,
    Table.get?_update, if_neg hother]
  rfl

/-- The parents are told the versions that are stored afterwards. -/
theorem told_of_cascade {versions : List (Id × Nat)}
    (hparents : versions.map (·.1) = store.linkedParents gone)
    (htold : TellsNext store.ideas versions) : ∀ entry ∈ versions, ∃ row,
      (((store.removeLinksOf now gone).bury now gone).touchAll now
        (store.linkedParents gone)).ideas.get? entry.1 =
        some row ∧ row.version = .whole entry.2 := by
  intro entry hentry
  obtain ⟨row, hrow, hread⟩ := htold entry hentry
  refine ⟨row.bumped now, ?_, (Version.read_eq_ok hread).1⟩
  rw [get?_cascade_of_parent (hparents ▸ List.mem_map_of_mem hentry), hrow, Option.map_some]

/-- A cascade deletes an idea of a consistent store, if the versions of the live ideas can be
told. -/
theorem isDeletion_cascade (hconsistent : store.Consistent) (hversions : store.TellsLiveVersions)
    {row : IdeaRow} (hrow : store.ideas.get? gone = some row) (hlive : row.isLive) :
    store.IsDeletion now gone
      (((store.removeLinksOf now gone).bury now gone).touchAll now (store.linkedParents gone)) where
  discussions := rfl
  posts := rfl
  contents := rfl
  actions := rfl
  guarded := rfl
  deleted := by
    obtain ⟨version, hread⟩ := hversions gone row hrow hlive
    obtain ⟨hversion, hbumped⟩ := IdeaRow.bumped_of_read now hread
    have hgone : gone ∉ store.linkedParents gone :=
      fun hmem => (mem_linkedParents_iff.mp hmem).2 rfl
    refine ⟨row, version, hrow, hlive, hversion, ?_⟩
    rw [touchAll, Table.get?_updateAll_of_notMem hgone, bury, Table.get?_update, if_pos rfl]
    change (store.ideas.get? gone).map (IdeaRow.deleted now) = _
    rw [hrow, Option.map_some, IdeaRow.deleted, hbumped]
  parents parent hparent := by
    have hlisted := mem_linkedParents_iff_isParentOf.mpr hparent
    obtain ⟨-, link, linkRow, hlink, hlinkLive, rfl, -⟩ := hparent
    obtain ⟨parentRow, hparentRow, hparentLive⟩ := hconsistent.isLive_source hlink hlinkLive
    obtain ⟨version, hread⟩ := hversions _ parentRow hparentRow hparentLive
    obtain ⟨hversion, hbumped⟩ := IdeaRow.bumped_of_read now hread
    refine ⟨parentRow, version, hparentRow, hversion, ?_⟩
    rw [get?_cascade_of_parent hlisted, hparentRow, Option.map_some, hbumped]
  others idea hother hparent := by
    have hquiet : idea ∉ store.linkedParents gone := mt mem_linkedParents_iff_isParentOf.mp hparent
    rw [touchAll, Table.get?_updateAll_of_notMem hquiet, bury, Table.get?_update, if_neg hother]
    rfl
  removed link linkRow hlink hlinkLive htouches := by
    change (store.links.mapRows _).get? link = _
    rw [Table.get?_mapRows, hlink, Option.map_some,
      if_pos (by simpa [LinkRow.touches, hlinkLive] using htouches)]
    rfl
  links link hquiet := by
    change (store.links.mapRows _).get? link = _
    rw [Table.get?_mapRows]
    cases hlink : store.links.get? link with
    | none => rfl
    | some linkRow =>
      have huntouched : ¬ (linkRow.isLive && linkRow.touches gone) := by
        simpa [LinkRow.touches] using hquiet linkRow hlink
      rw [Option.map_some, if_neg huntouched]

/-- An idea that was deleted before is left alone, if its version can be told. -/
theorem perform_tombstone_again {row : IdeaRow} {version : Nat} (hlegible : store.Legible)
    (hrow : store.ideas.get? gone = some row) (hdead : row.isLive = false)
    (hkind : row.kind ≠ .legible .root) (hversion : row.version = .whole version)
    (hfits : version < 4294967296) :
    (Request.tombstoneIdea gone).perform now store =
      (.ok (Request.ofCascade gone none), store) := by
  have htold : row.version.read 10 = .ok version := by
    rw [hversion]
    exact Version.read_whole_eq_ok_iff.mpr ⟨rfl, hfits⟩
  obtain ⟨found, hread⟩ := (hlegible.ideas gone row hrow).exists_read gone htold
  have hroot : ¬ found.isRoot := by
    obtain ⟨hfound, -⟩ := IdeaRow.read_eq_ok_iff.mp hread
    rw [hfound] at hkind
    exact fun hroot => hkind (by simpa [Idea.isRoot] using hroot)
  have hgone : found.isTombstone := by
    rw [IdeaRow.isTombstone_of_read hread, hdead]
    rfl
  refine Attempt.bind_eq_ok_iff.mpr ⟨none, store, ?_, rfl⟩
  refine Attempt.bind_eq_ok_iff.mpr ⟨found, store, ?_, ?_⟩
  · exact Attempt.read_eq_ok_iff.mpr ⟨requireIdea_eq_ok_iff.mpr ⟨row, hrow, hread⟩, rfl⟩
  · rw [if_neg hroot, if_pos hgone]
    rfl

end Deliberation.Store

namespace Deliberation

open Store

/-- A live idea is deleted by a request that deletes it. The deletion is told first, then each
parent with its version. -/
theorem Request.Effect.isDeletion {now : Timestamp} {gone : Id} {store after : Store}
    {receipt : Receipt Unit} (heffect : Effect now store (.tombstoneIdea gone) receipt after)
    (hconsistent : store.Consistent) (hversions : store.TellsLiveVersions)
    (hlive : store.isLiveIdea gone) :
    store.IsDeletion now gone after ∧
    (∃ row, store.ideas.get? gone = some row ∧ row.kind ≠ .legible .root) ∧
    ∃ told : List (Id × Nat), told.map (·.1) = store.linkedParents gone ∧
      (∀ entry ∈ told, ∃ row, after.ideas.get? entry.1 = some row ∧ row.version = .whole entry.2) ∧
      receipt.changes = .deleted gone :: modified told := by
  obtain ⟨row, hrow, hrowLive⟩ := isLiveIdea_iff.mp hlive
  cases heffect with
  | tombstoneAgain hagain hdead =>
    obtain rfl := Option.some.inj (hrow.symm.trans hagain)
    simp [hdead] at hrowLive
  | @tombstoneIdea _ _ links versions hagain hkind _ _ hparents htold =>
    exact ⟨isDeletion_cascade hconsistent hversions hrow hrowLive, ⟨_, hagain, hkind⟩,
      versions, hparents, told_of_cascade hparents htold, rfl⟩

end Deliberation
