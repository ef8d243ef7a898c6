import Deliberation.Proofs.Aggregation.Related
import Deliberation.Proofs.Session.Action
import Deliberation.Proofs.Session.Legible
import Mathlib.Data.Set.Card

/-!
How many posts are related to an idea, and how many of them a user has read. The posts are counted
in lines that repeat them for each pivot and each reading, and the root idea takes its total from
elsewhere; what comes out are the sizes of two sets, one of which is a part of the other.
-/

namespace Deliberation

/-- An ascending list has as many members as its length says. -/
theorem encard_of_ascending {ids : List Id} {P : Id → Prop} (hordered : ids.Pairwise (· < ·))
    (hmem : ∀ id, id ∈ ids ↔ P id) : {id | P id}.encard = ids.length := by
  have hset : {id | P id} = (ids.toFinset : Set Id) := by
    ext id
    simp [hmem]
  rw [hset, Set.encard_coe_eq_coe_finsetCard,
    List.toFinset_card_of_nodup (hordered.imp Int.ne_of_lt)]

namespace Store

variable {store : Store} {discussion idea agent post : Id} {ideas : List Id} {user : Option Id}

/-- The posts related to some ideas that the user has read. -/
def readPosts (store : Store) (discussion : Id) (ideas : List Id) (user : Option Id) : Set Id :=
  {post | post ∈ store.relatedPosts discussion ideas ∧ ∃ agent ∈ user, store.ReadBy agent post}

theorem readPosts_none : store.readPosts discussion ideas none = ∅ := by
  simp [readPosts]

theorem isReading_iff {row : ActionRow} : row.isReading agent post ↔
    row.isLive ∧ (⟨row.kind, row.actor, row.post⟩ : NewAction) = ⟨.read, agent, post⟩ := by
  simp [ActionRow.isReading, and_assoc]

/-- An agent has read a post if some row that was not taken back says so. -/
theorem readBy_iff_exists_row :
    store.ReadBy agent post ↔ ∃ row ∈ store.actions.rows, row.isReading agent post := by
  simp only [Table.mem_rows_iff, isReading_iff]
  constructor
  · rintro ⟨id, row, hrow, hreading⟩
    exact ⟨row, ⟨id, hrow⟩, hreading⟩
  · rintro ⟨row, ⟨id, hrow⟩, hreading⟩
    exact ⟨id, row, hrow, hreading⟩

theorem exists_mem_readings (store : Store) (user : Option Id) (post : Id) :
    ∃ reading, reading ∈ store.readings user post := by
  unfold readings
  split
  · exact ⟨none, List.mem_singleton_self none⟩
  · rename_i hsome
    obtain ⟨row, hrow⟩ := List.exists_mem_of_ne_nil _ hsome
    exact ⟨some row.post, List.mem_map_of_mem hrow⟩

theorem some_mem_readings_iff {read : Id} : some read ∈ store.readings user post ↔
    read = post ∧ ∃ agent ∈ user, store.ReadBy agent post := by
  have hlines : some read ∈ store.readings user post ↔
      ∃ row ∈ store.actions.rows, (user.any fun agent => row.isReading agent post) ∧
        row.post = read := by
    unfold readings
    split
    · rename_i hnone
      have hnobody := List.filter_eq_nil_iff.mp hnone
      simp only [List.mem_singleton, reduceCtorEq, false_iff]
      rintro ⟨row, hrow, hread, -⟩
      exact hnobody row hrow hread
    · simp [and_assoc]
  rw [hlines]
  simp only [Option.any_eq_true, readBy_iff_exists_row]
  constructor
  · rintro ⟨row, hrow, ⟨agent, hagent, hreading⟩, rfl⟩
    have hsame := (isReading_iff.mp hreading).2
    obtain rfl : row.post = post := congrArg NewAction.post hsame
    exact ⟨rfl, agent, hagent, row, hrow, hreading⟩
  · rintro ⟨rfl, agent, hagent, row, hrow, hreading⟩
    have hsame := (isReading_iff.mp hreading).2
    exact ⟨row, hrow, ⟨agent, hagent, hreading⟩, congrArg NewAction.post hsame⟩

/-- The joined rows are the related posts, each with every reading of it by the user who is asked
about. -/
theorem mem_relatedReadings_iff {reading : Option Id} :
    (post, reading) ∈ store.relatedReadings discussion ideas user ↔
      post ∈ store.relatedPosts discussion ideas ∧ reading ∈ store.readings user post := by
  simp only [relatedReadings, relatedPosts, mem_ascending, List.mem_flatMap, List.mem_map,
    Prod.mk.injEq]
  constructor
  · rintro ⟨pair, hpair, other, hother, rfl, rfl⟩
    exact ⟨⟨pair, hpair, rfl⟩, hother⟩
  · rintro ⟨⟨pair, hpair, rfl⟩, hother⟩
    exact ⟨pair, hpair, reading, hother, rfl, rfl⟩

/-- However many lines there are, each related post counts once. -/
theorem relatedCounts_total (store : Store) (discussion : Id) (ideas : List Id) (user : Option Id) :
    (store.relatedCounts discussion ideas user).total =
      (store.relatedPosts discussion ideas).length := by
  refine congrArg List.length (ascending_congr fun id => ?_)
  have hposts : id ∈ (store.related discussion ideas).map (·.post) ↔
      id ∈ store.relatedPosts discussion ideas := mem_ascending.symm
  rw [hposts, List.mem_map]
  constructor
  · rintro ⟨⟨other, reading⟩, hline, rfl⟩
    exact (mem_relatedReadings_iff.mp hline).1
  · intro hpost
    obtain ⟨reading, hreading⟩ := exists_mem_readings store user id
    exact ⟨(id, reading), mem_relatedReadings_iff.mpr ⟨hpost, hreading⟩, rfl⟩

/-- The number that is told of related posts that were read is the number of these posts. -/
theorem encard_readPosts (store : Store) (discussion : Id) (ideas : List Id) (user : Option Id) :
    (store.readPosts discussion ideas user).encard =
      (store.relatedCounts discussion ideas user).read := by
  apply encard_of_ascending (ascending_pairwise _)
  intro id
  rw [mem_ascending, List.mem_filterMap]
  constructor
  · rintro ⟨⟨other, reading⟩, hline, hreading⟩
    obtain rfl : reading = some id := hreading
    obtain ⟨hpost, hread⟩ := mem_relatedReadings_iff.mp hline
    obtain ⟨rfl, hread⟩ := some_mem_readings_iff.mp hread
    exact ⟨hpost, hread⟩
  · rintro ⟨hpost, hread⟩
    have hreading : some id ∈ store.readings user id := some_mem_readings_iff.mpr ⟨rfl, hread⟩
    exact ⟨(id, some id), mem_relatedReadings_iff.mpr ⟨hpost, hreading⟩, rfl⟩

/-- The number that is told of visible posts is the number of these posts. -/
theorem encard_visible (store : Store) (discussion : Id) :
    {post | store.ShowsPost discussion post}.encard = store.postCount discussion := by
  have hordered : ((store.visiblePosts discussion).map (·.1)).Pairwise (· < ·) :=
    store.posts.pairwise_entries.sublist (List.filter_sublist.map _)
  rw [encard_of_ascending hordered, List.length_map, postCount]
  intro id
  simp only [List.mem_map, Prod.exists, exists_and_right, exists_eq_right, mem_visiblePosts_iff]
  rfl

theorem showsPost_of_related (h : post ∈ store.relatedPosts discussion ideas) :
    store.ShowsPost discussion post := by
  simp only [relatedPosts, mem_ascending, List.mem_map, related, List.mem_flatMap,
    List.mem_filter] at h
  obtain ⟨-, ⟨-, -, ⟨⟨id, row⟩, ⟨hvisible, -⟩, rfl⟩⟩, rfl⟩ := h
  exact ⟨row, mem_visiblePosts_iff.mp hvisible⟩

theorem encard_relatedPosts (store : Store) (discussion : Id) (ideas : List Id) :
    {post | post ∈ store.relatedPosts discussion ideas}.encard =
      (store.relatedPosts discussion ideas).length :=
  encard_of_ascending (ascending_pairwise _) fun _ => Iff.rfl

/-- No more posts are related to ideas of a discussion than can be seen there. -/
theorem length_relatedPosts_le :
    (store.relatedPosts discussion ideas).length ≤ store.postCount discussion := by
  have hsubset : {post | post ∈ store.relatedPosts discussion ideas} ⊆
      {post | store.ShowsPost discussion post} := fun _ hpost => showsPost_of_related hpost
  have hle := Set.encard_le_encard hsubset
  rw [encard_relatedPosts, encard_visible] at hle
  exact_mod_cast hle

theorem read_le_total : (store.relatedCounts discussion ideas user).read ≤
    (store.relatedCounts discussion ideas user).total := by
  have hsubset : store.readPosts discussion ideas user ⊆
      {post | post ∈ store.relatedPosts discussion ideas} := by
    intro post hpost
    exact hpost.1
  have hle := Set.encard_le_encard hsubset
  rw [encard_readPosts, encard_relatedPosts, ← relatedCounts_total _ _ _ user] at hle
  exact_mod_cast hle

theorem read_le_postCount :
    (store.relatedCounts discussion ideas user).read ≤ store.postCount discussion := by
  have htotal := relatedCounts_total store discussion ideas user
  exact (read_le_total.trans htotal.le).trans length_relatedPosts_le

theorem Legible.findLiveIdea_of_live (h : store.Legible) (hversions : store.TellsLiveVersions)
    {row : IdeaRow} (hrow : store.ideas.get? idea = some row) (hlive : row.isLive) :
    ∃ found, store.findLiveIdea idea = .ok (some found) ∧ found.id = idea ∧
      found.discussion = row.discussion ∧ (found.isRoot ↔ row.kind = .legible .root) := by
  obtain ⟨found, hread⟩ := h.exists_readIdea hversions hrow hlive
  obtain ⟨hkind, -, -, htombstone, -, hid, hdiscussion, -⟩ := IdeaRow.read_eq_ok_iff.mp hread
  have hfind : store.findIdea idea = .ok (some found) := find_eq_ok_some_iff.mpr ⟨row, hrow, hread⟩
  have hfoundLive : found.isLive := by
    simpa [IdeaRow.isLive, Idea.isLive, htombstone] using hlive
  refine ⟨found, ?_, hid, hdiscussion, ?_⟩
  · simp [findLiveIdea, hfind, hfoundLive, bind, Except.bind, pure, Except.pure]
  · simp [Idea.isRoot, hkind]

/-- Whatever is found of an idea that is not live, it is not found as a live one. -/
theorem findLiveIdea_of_dead (h : store.isLiveIdea idea = false) :
    store.findLiveIdea idea = (store.findIdea idea).map fun _ => none := by
  unfold findLiveIdea
  cases hfind : store.findIdea idea with
  | error e => rfl
  | ok found =>
    cases found with
    | none => rfl
    | some found =>
      obtain ⟨row, hrow, hread⟩ := find_eq_ok_some_iff.mp hfind
      have hdead : found.isLive = false := by
        have htombstone := IdeaRow.isTombstone_of_read hread
        simp only [isLiveIdea, hrow] at h
        simpa [h, Idea.isTombstone, Idea.isLive] using htombstone
      simp [hdead, bind, Except.bind, pure, Except.pure, Except.map]

end Store

namespace Aggregator

open Store

variable {aggregator : Aggregator} {idea : Id} {ideas : List Id} {user : Option Id}

/-- The root idea answers for all posts of its discussion, any other idea for those related to
it. -/
theorem counts_of_live (hlegible : aggregator.store.Legible)
    (hversions : aggregator.store.TellsLiveVersions) {row : IdeaRow}
    (hrow : aggregator.store.ideas.get? idea = some row) (hlive : row.isLive)
    (h : (aggregator.subtree idea).result = .ok ideas) (user : Option Id) :
    (aggregator.counts idea user).result = .ok
      ⟨if row.kind = .legible .root then aggregator.store.postCount row.discussion
        else (aggregator.store.relatedPosts row.discussion ideas).length,
      (aggregator.store.relatedCounts row.discussion ideas user).read⟩ := by
  obtain ⟨found, hfound, rfl, hdiscussion, hroot⟩ :=
    hlegible.findLiveIdea_of_live hversions hrow hlive
  have hread : (read (aggregator.store.findLiveIdea found.id)).result = .ok (some found) := hfound
  rw [counts, Traced.result_bind, hread]
  change (aggregator.subtree found.id >>= _).result = _
  rw [Traced.result_bind, h, ← relatedCounts_total _ _ _ user, hdiscussion]
  by_cases hkind : row.kind = .legible .root
  · rw [if_pos hkind]
    change Traced.result (if found.isRoot then _ else _) = _
    rw [if_pos (hroot.mpr hkind)]
    rfl
  · rw [if_neg hkind]
    change Traced.result (if found.isRoot then _ else _) = _
    rw [if_neg (mt hroot.mp hkind)]
    rfl

/-- Nothing is counted below an idea that is not live, if it can be looked at. -/
theorem counts_of_dead (h : aggregator.store.isLiveIdea idea = false) (user : Option Id) :
    (aggregator.counts idea user).result =
      (aggregator.store.findIdea idea).map fun _ => ⟨0, 0⟩ := by
  have hread : (read (aggregator.store.findLiveIdea idea)).result =
      (aggregator.store.findIdea idea).map fun _ => none := findLiveIdea_of_dead h
  rw [counts, Traced.result_bind, hread]
  cases aggregator.store.findIdea idea with
  | error e => rfl
  | ok found => rfl

theorem postCount_result (aggregator : Aggregator) (idea : Id) :
    (aggregator.postCount idea).result = (aggregator.counts idea none).result.map (·.total) := by
  unfold postCount Traced.within
  rw [Traced.result_bind]
  cases (aggregator.counts idea none).result with
  | error e => rfl
  | ok counts => rfl

theorem readCount_result (aggregator : Aggregator) (idea agent : Id) :
    (aggregator.readCount idea (some agent)).result =
      (aggregator.counts idea (some agent)).result.map (·.read) := by
  unfold readCount readBelow Traced.within
  rw [Traced.result_bind]
  cases (aggregator.counts idea (some agent)).result with
  | error e => rfl
  | ok counts => rfl

/-- For nobody the count is not looked up, but it is the same as if it were. -/
theorem readCount_of_counts {counts : PostCounts}
    (h : (aggregator.counts idea user).result = .ok counts)
    (hnobody : user = none → counts.read = 0) :
    (aggregator.readCount idea user).result = .ok counts.read := by
  cases user with
  | none =>
    rw [hnobody rfl]
    rfl
  | some agent =>
    rw [readCount_result, h]
    rfl

/-- The three ways to ask for counts agree, and what they tell is the size of two sets of posts. -/
theorem counts_below_live (hlegible : aggregator.store.Legible)
    (hversions : aggregator.store.TellsLiveVersions) {row : IdeaRow}
    (hrow : aggregator.store.ideas.get? idea = some row) (hlive : row.isLive) (user : Option Id) :
    ∃ posts counts, (aggregator.relatedPosts row.discussion idea).result = .ok posts ∧
      (aggregator.postCounts idea user).result = .ok counts ∧
      (aggregator.postCount idea).result = .ok counts.total ∧
      (aggregator.readCount idea user).result = .ok counts.read ∧
      {post | post ∈ posts ∧ ∃ agent ∈ user, aggregator.store.ReadBy agent post}.encard =
        counts.read ∧
      (row.kind ≠ .legible .root → counts.total = posts.length) ∧
      (row.kind = .legible .root → counts.total = aggregator.store.postCount row.discussion) ∧
      counts.read ≤ counts.total := by
  obtain ⟨ideas, hideas, -⟩ := aggregator.subtree_result idea
  have hcounts := counts_of_live hlegible hversions hrow hlive hideas
  have hread := encard_readPosts aggregator.store row.discussion ideas user
  refine ⟨_, _, relatedPosts_of_subtree hideas row.discussion, hcounts user, ?_,
    readCount_of_counts (hcounts user) ?_, hread, fun hother => if_neg hother,
    fun hroot => if_pos hroot, ?_⟩
  · rw [postCount_result, hcounts]
    rfl
  · rintro rfl
    simpa [readPosts_none] using hread.symm
  · dsimp only
    split
    · exact read_le_postCount
    · rw [← relatedCounts_total _ _ _ user]
      exact read_le_total

/-- An idea that was deleted or never existed has no posts, whichever way they are asked for. -/
theorem counts_below_dead (h : aggregator.store.isLiveIdea idea = false) {found : Option Idea}
    (hfound : aggregator.store.findIdea idea = .ok found) (user : Option Id) :
    (aggregator.postCounts idea user).result = .ok ⟨0, 0⟩ ∧
      (aggregator.postCount idea).result = .ok 0 ∧
        (aggregator.readCount idea user).result = .ok 0 := by
  have hcounts : ∀ user, (aggregator.counts idea user).result = .ok ⟨0, 0⟩ := by
    intro user
    rw [counts_of_dead h, hfound]
    rfl
  refine ⟨hcounts user, ?_, readCount_of_counts (hcounts user) fun _ => rfl⟩
  rw [postCount_result, hcounts]
  rfl

end Aggregator

namespace Session

open Store

/-- Whatever was asked of a new database before, and under either strategy: the posts that a user
has read below a live idea are those among its related posts of which a reading was recorded and not
retracted since. All posts that count are the related ones, or for the root idea all that can be
seen in the discussion. A missing idea, or a deleted one that can still be looked at, has no
posts. -/
theorem postCounts_after_history (medium : Medium) (watcher : Watcher) (history : History)
    (strategy : ClosureStrategy) (settings : Config.Analytics) (idea : Id) (user : Option Id) :
    let store := storeAfter medium watcher history
    let aggregator : Aggregator := ⟨store, strategy, settings⟩
    (∀ row, store.ideas.get? idea = some row → row.isLive →
      ∃ posts counts, (aggregator.relatedPosts row.discussion idea).result = .ok posts ∧
        (aggregator.postCounts idea user).result = .ok counts ∧
        (aggregator.postCount idea).result = .ok counts.total ∧
        (aggregator.readCount idea user).result = .ok counts.read ∧
        {post | post ∈ posts ∧ ∃ agent ∈ user, ∃ action,
          Stands (start medium watcher) history action ⟨.read, agent, post⟩}.encard = counts.read ∧
        (row.kind ≠ .legible .root → counts.total = posts.length) ∧
        (row.kind = .legible .root →
          {post | store.ShowsPost row.discussion post}.encard = counts.total) ∧
        counts.read ≤ counts.total) ∧
    ((store.ideas.get? idea = none ∨ ∃ (row : IdeaRow) (version : Nat),
        store.ideas.get? idea = some row ∧ row.isLive = false ∧ row.version = .whole version ∧
        version < 4294967296) →
      (aggregator.postCounts idea user).result = .ok ⟨0, 0⟩ ∧
        (aggregator.postCount idea).result = .ok 0 ∧
        (aggregator.readCount idea user).result = .ok 0) := by
  intro store aggregator
  have hlegible : store.Legible := storeAfter_legible medium watcher history
  constructor
  · intro row hrow hlive
    obtain ⟨posts, counts, hposts, hcounts, htotal, hreadCount, hread, hother, hroot, hle⟩ :=
      aggregator.counts_below_live hlegible (storeAfter_tellsLiveVersions medium watcher history)
        hrow hlive user
    refine ⟨posts, counts, hposts, hcounts, htotal, hreadCount, ?_, hother, ?_, hle⟩
    · rw [← hread]
      simp only [ReadBy, ← hasAction_storeAfter_iff]
      rfl
    · intro hkind
      rw [hroot hkind]
      exact encard_visible store row.discussion
  · intro habsent
    have hgone : store.isLiveIdea idea = false ∧ ∃ found, store.findIdea idea = .ok found := by
      rcases habsent with hmissing | ⟨row, version, hrow, hdead, hversion, hfits⟩
      · refine ⟨by simp [isLiveIdea, hmissing], none, ?_⟩
        simp [findIdea, find, hmissing, answer, pure, Except.pure]
      · have hread : row.version.read 10 = .ok version := by
          rw [hversion]
          exact Version.read_whole_eq_ok_iff.mpr ⟨rfl, hfits⟩
        obtain ⟨found, hfound⟩ := (hlegible.ideas idea row hrow).exists_read idea hread
        exact ⟨by simp [isLiveIdea, hrow, hdead], some found,
          find_eq_ok_some_iff.mpr ⟨row, hrow, hfound⟩⟩
    obtain ⟨hdead, found, hfound⟩ := hgone
    exact aggregator.counts_below_dead hdead hfound user

end Session

end Deliberation
