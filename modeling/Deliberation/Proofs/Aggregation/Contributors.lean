import Deliberation.Proofs.Aggregation.Counts
import Deliberation.Proofs.Aggregation.Ranking
import Deliberation.Proofs.Closure.Agree

/-!
Who wrote the posts related to an idea, and in which order the authors are told. Each author has a
line of numbers: the pivots with posts of the author below them, the posts, and the first of these.
Every related post stands in the line of its author only, however many pivots it goes back to.
-/

namespace Deliberation

namespace Store

section Lines

variable {pairs : List Related} {line : Contribution} {agent : Id}

def ownPairs (pairs : List Related) (agent : Id) : List Related :=
  pairs.filter fun pair => pair.author == agent

theorem mem_ownPairs_iff {pair : Related} :
    pair ∈ ownPairs pairs agent ↔ pair ∈ pairs ∧ pair.author = agent := by
  simp [ownPairs]

/-- A line tells of the pairs of its author: how many pivots and posts they have, and which post is
the first. -/
theorem mem_contributionsOf (h : line ∈ contributionsOf pairs) :
    line.agent ∈ pairs.map (·.author) ∧
      line.pivots = (ascending ((ownPairs pairs line.agent).map (·.pivot))).length ∧
      line.posts = (ascending ((ownPairs pairs line.agent).map (·.post))).length ∧
      (ascending ((ownPairs pairs line.agent).map (·.post))).head? = some line.firstPost := by
  obtain ⟨agent, hagent, hline⟩ := List.mem_filterMap.mp h
  obtain ⟨first, hfirst, rfl⟩ := Option.map_eq_some_iff.mp hline
  exact ⟨mem_ascending.mp hagent, rfl, rfl, hfirst⟩

/-- Every author has one line. -/
theorem agents_contributionsOf (pairs : List Related) :
    (contributionsOf pairs).map (·.agent) = ascending (pairs.map (·.author)) := by
  unfold contributionsOf
  rw [List.map_filterMap]
  conv_rhs => rw [← List.filterMap_some (l := ascending (pairs.map (·.author)))]
  refine List.filterMap_congr fun agent hagent => ?_
  obtain ⟨pair, hpair, rfl⟩ := List.mem_map.mp (mem_ascending.mp hagent)
  have hown : pair.post ∈ ascending ((ownPairs pairs pair.author).map (·.post)) :=
    mem_ascending.mpr (List.mem_map_of_mem (mem_ownPairs_iff.mpr ⟨hpair, rfl⟩))
  cases hposts : ascending ((ownPairs pairs pair.author).map (·.post)) with
  | nil =>
    rw [hposts] at hown
    cases hown
  | cons first rest =>
    unfold ownPairs at hposts
    simp [hposts]

theorem mem_own_iff {f : Related → Id} {id : Id} :
    id ∈ ascending ((ownPairs pairs agent).map f) ↔ ∃ pair ∈ pairs, pair.author = agent ∧
      f pair = id := by
  simp [mem_ownPairs_iff, and_assoc]

/-- Where every post has one author, the posts of an author are those that the author wrote. -/
theorem posts_contributionsOf {author : Id → Id}
    (hauthor : ∀ pair ∈ pairs, author pair.post = pair.author) (h : line ∈ contributionsOf pairs) :
    line.posts = ((ascending (pairs.map (·.post))).map author).count line.agent := by
  obtain ⟨-, -, hposts, -⟩ := mem_contributionsOf h
  rw [hposts, List.count, List.countP_map, List.countP_eq_length_filter]
  refine congrArg List.length
    (eq_of_pairwise_lt (ascending_pairwise _) ((ascending_pairwise _).filter _) ?_)
  intro post
  rw [mem_own_iff, List.mem_filter, mem_ascending, List.mem_map]
  constructor
  · rintro ⟨pair, hpair, hagent, rfl⟩
    exact ⟨⟨pair, hpair, rfl⟩, by simp [hauthor pair hpair, hagent]⟩
  · rintro ⟨⟨pair, hpair, rfl⟩, hagent⟩
    exact ⟨pair, hpair, by simpa [hauthor pair hpair] using hagent, rfl⟩

/-- Where every post has one author, each post is counted in one line. -/
theorem sum_posts_contributionsOf {author : Id → Id}
    (hauthor : ∀ pair ∈ pairs, author pair.post = pair.author) :
    ((contributionsOf pairs).map (·.posts)).sum = (ascending (pairs.map (·.post))).length := by
  have hcounts : (contributionsOf pairs).map (·.posts) = ((contributionsOf pairs).map (·.agent)).map
      ((ascending (pairs.map (·.post))).map author).count := by
    rw [List.map_map]
    exact List.map_congr_left fun _ hline => posts_contributionsOf hauthor hline
  have hagents : (ascending (pairs.map (·.author))).Perm
      ((ascending (pairs.map (·.post))).map author).dedup := by
    have hdistinct : List.Nodup (ascending (pairs.map (·.author))) :=
      (ascending_pairwise _).imp Int.ne_of_lt
    refine (List.perm_ext_iff_of_nodup hdistinct (List.nodup_dedup _)).mpr fun agent => ?_
    simp only [mem_ascending, List.mem_dedup, List.mem_map, exists_exists_and_eq_and]
    exact exists_congr fun pair => and_congr_right fun hpair => by rw [hauthor pair hpair]
  rw [hcounts, agents_contributionsOf, (hagents.map _).sum_eq, List.sum_map_count_dedup_eq_length,
    List.length_map]

/-- Where every post has one author, no two authors have the same first post. -/
theorem nodup_firstPosts {author : Id → Id}
    (hauthor : ∀ pair ∈ pairs, author pair.post = pair.author) :
    ((contributionsOf pairs).map (·.firstPost)).Nodup := by
  have hwrote : ((contributionsOf pairs).map (·.firstPost)).map author =
      (contributionsOf pairs).map (·.agent) := by
    rw [List.map_map]
    refine List.map_congr_left fun line hline => ?_
    obtain ⟨-, -, -, hfirst⟩ := mem_contributionsOf hline
    obtain ⟨pair, hpair, hagent, hpost⟩ := mem_own_iff.mp (List.mem_of_mem_head? hfirst)
    exact (congrArg author hpost).symm.trans ((hauthor pair hpair).trans hagent)
  refine List.Nodup.of_map author ?_
  rw [hwrote, agents_contributionsOf]
  exact (ascending_pairwise _).imp Int.ne_of_lt

end Lines

variable {store : Store} {discussion root agent : Id} {ideas : List Id} {line : Contribution}

def postsBy (store : Store) (posts : List Id) (agent : Id) : Set Id :=
  {post | post ∈ posts ∧ ∃ row, store.posts.get? post = some row ∧ row.creator = agent}

/-- A post is tied to an idea, neither deleted nor hidden, to which live links lead from the
root. -/
def IsPivotBelow (store : Store) (root pivot : Id) : Prop :=
  ∃ idea row, Relation.ReflTransGen store.Linked root idea ∧ store.ideas.get? idea = some row ∧
    row.isLive ∧ row.hidden = false ∧ store.TiedTo pivot idea

/-- The pivots that some posts of an agent go back to, each standing in its own subtree of
replies. -/
def pivotsBy (store : Store) (root : Id) (posts : List Id) (agent : Id) : Set Id :=
  {pivot | store.IsPivotBelow root pivot ∧
    ∃ post ∈ store.postsBy posts agent, Relation.ReflTransGen (RepliesTo store.posts) post pivot}

structure Credits (store : Store) (root : Id) (related : List Id) (line : Contribution) : Prop where
  pivots : (store.pivotsBy root related line.agent).encard = line.pivots
  posts : (store.postsBy related line.agent).encard = line.posts
  first : IsLeast (store.postsBy related line.agent) line.firstPost

/-- The author of a post; an absent post is nobody's. -/
def authorOf (store : Store) (post : Id) : Id := ((store.posts.get? post).map (·.creator)).getD 0

/-- Each related pair names the author that its post has in the store. -/
theorem authorOf_related (h : Threaded store.posts) :
    ∀ pair ∈ store.related discussion ideas, store.authorOf pair.post = pair.author := by
  intro pair hpair
  obtain ⟨⟨row, hrow, -, -, hauthor⟩, -⟩ := (mem_related_iff h).mp hpair
  simp [authorOf, hrow, hauthor]

/-- An agent's part of the related posts are the posts of the pairs with the agent as author. -/
theorem mem_postsBy_related_iff (h : Threaded store.posts) {post : Id} :
    post ∈ store.postsBy (store.relatedPosts discussion ideas) agent ↔
      ∃ pair ∈ store.related discussion ideas, pair.author = agent ∧ pair.post = post := by
  change (post ∈ ascending ((store.related discussion ideas).map (·.post)) ∧ _) ↔ _
  rw [mem_ascending, List.mem_map]
  constructor
  · rintro ⟨⟨pair, hpair, rfl⟩, row, hrow, rfl⟩
    have hauthor := authorOf_related h pair hpair
    exact ⟨pair, hpair, by simpa [authorOf, hrow] using hauthor.symm, rfl⟩
  · rintro ⟨pair, hpair, hagent, rfl⟩
    obtain ⟨⟨row, hrow, -, -, hauthor⟩, -⟩ := (mem_related_iff h).mp hpair
    exact ⟨⟨pair, hpair, rfl⟩, row, hrow, hauthor.trans hagent⟩

/-- Ideas below one of a discussion belong to it, so that no tie to them is lost for standing
elsewhere. -/
theorem mem_pivotsBy_related_iff (h : Threaded store.posts) (hconsistent : store.Consistent)
    (hroot : store.HasIdea discussion root)
    (hclosure : store.IsClosureOf .forward [root] true ideas) {pivot : Id} :
    pivot ∈ store.pivotsBy root (store.relatedPosts discussion ideas) agent ↔
      ∃ pair ∈ store.related discussion ideas, pair.author = agent ∧ pair.pivot = pivot := by
  constructor
  · rintro ⟨⟨idea, row, hbelow, hrow, hlive, hshown, htied⟩, post, hpost, hreplies⟩
    obtain ⟨pair, hpair, hagent, rfl⟩ := (mem_postsBy_related_iff h).mp hpost
    have hidea := (hconsistent.mem_closure_iff hclosure).mpr hbelow
    obtain ⟨again, hagain, hhere⟩ :=
      hconsistent.hasIdea_of_closure hclosure (by simpa using hroot) idea hidea
    obtain rfl := Option.some.inj (hagain.symm.trans hrow)
    obtain ⟨hwritten, -⟩ := (mem_related_iff h).mp hpair
    have hother : ⟨pivot, pair.post, pair.author⟩ ∈ store.related discussion ideas :=
      (mem_related_iff h).mpr ⟨hwritten, hreplies, idea, hidea,
        ⟨again, hrow, hlive, hshown, hhere⟩, htied⟩
    exact ⟨_, hother, hagent, rfl⟩
  · rintro ⟨pair, hpair, hagent, rfl⟩
    obtain ⟨-, hreplies, idea, hidea, ⟨row, hrow, hlive, hshown, -⟩, htied⟩ :=
      (mem_related_iff h).mp hpair
    have hbelow := (hconsistent.mem_closure_iff hclosure).mp hidea
    exact ⟨⟨idea, row, hbelow, hrow, hlive, hshown, htied⟩, pair.post,
      (mem_postsBy_related_iff h).mpr ⟨pair, hpair, hagent, rfl⟩, hreplies⟩

theorem isLeast_of_head? {ids : List Id} {first : Id} (hordered : ids.Pairwise (· < ·))
    (h : ids.head? = some first) : IsLeast {id | id ∈ ids} first := by
  obtain ⟨rest, rfl⟩ := List.head?_eq_some_iff.mp h
  refine ⟨List.mem_cons_self, fun id hid => ?_⟩
  rcases List.mem_cons.mp hid with rfl | hrest
  · exact Int.le_refl id
  · exact Int.le_of_lt ((List.pairwise_cons.mp hordered).1 id hrest)

/-- Every line of the statistics says the true numbers of its author. -/
theorem credits_of_mem (h : Threaded store.posts) (hconsistent : store.Consistent)
    (hroot : store.HasIdea discussion root)
    (hclosure : store.IsClosureOf .forward [root] true ideas)
    (hline : line ∈ store.contributions discussion ideas) :
    store.Credits root (store.relatedPosts discussion ideas) line := by
  obtain ⟨-, hpivots, hposts, hfirst⟩ := mem_contributionsOf hline
  constructor
  case pivots =>
    rw [hpivots]
    exact encard_of_ascending (ascending_pairwise _) fun pivot =>
      mem_own_iff.trans (mem_pivotsBy_related_iff h hconsistent hroot hclosure).symm
  case posts =>
    rw [hposts]
    exact encard_of_ascending (ascending_pairwise _) fun post =>
      mem_own_iff.trans (mem_postsBy_related_iff h).symm
  case first =>
    have hleast := isLeast_of_head? (ascending_pairwise _) hfirst
    have hsame :
      {id | id ∈ ascending ((ownPairs (store.related discussion ideas) line.agent).map (·.post))} =
        store.postsBy (store.relatedPosts discussion ideas) line.agent :=
      Set.ext fun post => mem_own_iff.trans (mem_postsBy_related_iff h).symm
    rwa [hsame] at hleast

/-- The authors with a line are those of the related posts. -/
theorem mem_agents_iff (h : Threaded store.posts) :
    agent ∈ (store.contributions discussion ideas).map (·.agent) ↔
      (store.postsBy (store.relatedPosts discussion ideas) agent).Nonempty := by
  rw [contributions, agents_contributionsOf, mem_ascending, List.mem_map]
  constructor
  · rintro ⟨pair, hpair, hagent⟩
    exact ⟨pair.post, (mem_postsBy_related_iff h).mpr ⟨pair, hpair, hagent, rfl⟩⟩
  · rintro ⟨post, hpost⟩
    obtain ⟨pair, hpair, hagent, -⟩ := (mem_postsBy_related_iff h).mp hpost
    exact ⟨pair, hpair, hagent⟩

end Store

namespace Aggregator

open Store

variable {aggregator : Aggregator} {idea : Id} {ideas : List Id}

/-- The contributors of an idea, told as the agents of ranked lines: who wrote one of the related
posts has a line. -/
structure RanksContributors (aggregator : Aggregator) (discussion idea : Id) (posts : List Id)
    (ranked : List Contribution) : Prop where
  told : (aggregator.contributors idea).result = .ok (ranked.map (·.agent))
  nodup : (ranked.map (·.agent)).Nodup
  mem_iff : ∀ agent, agent ∈ ranked.map (·.agent) ↔ (aggregator.store.postsBy posts agent).Nonempty
  credited : ∀ line ∈ ranked, aggregator.store.Credits idea posts line
  ordered : ranked.Pairwise (Ranking.Outranks aggregator.settings.tieBreak)
  total : (ranked.map (·.posts)).sum = posts.length
  anyOrder : ∃ ideas, (aggregator.subtree idea).result = .ok ideas ∧
    ∀ order, order.Perm (aggregator.store.contributions discussion ideas) →
      Ranking.contributors aggregator.settings.tieBreak order = ranked.map (·.agent)

/-- The contributors of a live idea are the ranked lines for the subtree of the idea. -/
theorem contributors_of_live (hlegible : aggregator.store.Legible)
    (hversions : aggregator.store.TellsLiveVersions) {row : IdeaRow}
    (hrow : aggregator.store.ideas.get? idea = some row) (hlive : row.isLive)
    (h : (aggregator.subtree idea).result = .ok ideas) :
    (aggregator.contributors idea).result = .ok (Ranking.contributors aggregator.settings.tieBreak
      (aggregator.store.contributions row.discussion ideas)) := by
  obtain ⟨found, hfound, rfl, hdiscussion, -⟩ := hlegible.findLiveIdea_of_live hversions hrow hlive
  have hread : (read (aggregator.store.findLiveIdea found.id)).result = .ok (some found) := hfound
  unfold contributors Traced.within
  rw [Traced.result_bind, hread]
  change (aggregator.subtree found.id >>= _).result = _
  rw [Traced.result_bind, h, hdiscussion]
  rfl

/-- In a legible, consistent and threaded store the contributors of a live idea are what they should
be. -/
theorem exists_ranksContributors (hlegible : aggregator.store.Legible)
    (hversions : aggregator.store.TellsLiveVersions) (hconsistent : aggregator.store.Consistent)
    (hthreaded : Threaded aggregator.store.posts) {row : IdeaRow}
    (hrow : aggregator.store.ideas.get? idea = some row) (hlive : row.isLive) :
    ∃ posts ranked, (aggregator.relatedPosts row.discussion idea).result = .ok posts ∧
      aggregator.RanksContributors row.discussion idea posts ranked := by
  obtain ⟨ideas, hideas, hclosure⟩ := aggregator.subtree_result idea
  have hauthor : ∀ pair ∈ aggregator.store.related row.discussion ideas,
      aggregator.store.authorOf pair.post = pair.author := authorOf_related hthreaded
  have hagents : ((aggregator.store.contributions row.discussion ideas).map (·.agent)).Nodup := by
    rw [contributions, agents_contributionsOf]
    exact (ascending_pairwise _).imp Int.ne_of_lt
  obtain ⟨ranked, hperm, hranked, hany⟩ :=
    Ranking.exists_ranked hagents (nodup_firstPosts hauthor) aggregator.settings.tieBreak
  have hmembers := hperm.map (·.agent)
  refine ⟨_, ranked, relatedPosts_of_subtree hideas row.discussion, ?_⟩
  constructor
  case told =>
    rw [contributors_of_live hlegible hversions hrow hlive hideas, hany _ (List.Perm.refl _)]
  case nodup => exact hmembers.nodup_iff.mpr hagents
  case mem_iff => exact fun agent => hmembers.mem_iff.trans (mem_agents_iff hthreaded)
  case credited =>
    intro line hline
    exact credits_of_mem hthreaded hconsistent ⟨row, hrow, rfl⟩ hclosure (hperm.mem_iff.mp hline)
  case ordered => exact hranked
  case total =>
    rw [(hperm.map (·.posts)).sum_eq]
    exact sum_posts_contributionsOf hauthor
  case anyOrder => exact ⟨ideas, hideas, hany⟩

end Aggregator

namespace Session

open Store

/-- Whatever was asked of a new database before, and under either strategy: the contributors of a
live idea are those who wrote a related post, each told once. They stand by the pivots that their
posts go back to, then by their posts, then by their first post or their id, as the settings say;
and how the lines were ordered before makes no difference. -/
theorem contributors_after_history (medium : Medium) (watcher : Watcher) (history : History)
    (strategy : ClosureStrategy) (settings : Config.Analytics) (idea : Id) (row : IdeaRow)
    (hrow : (storeAfter medium watcher history).ideas.get? idea = some row) (hlive : row.isLive) :
    let aggregator : Aggregator := ⟨storeAfter medium watcher history, strategy, settings⟩
    ∃ posts ranked, (aggregator.relatedPosts row.discussion idea).result = .ok posts ∧
      aggregator.RanksContributors row.discussion idea posts ranked :=
  Aggregator.exists_ranksContributors (storeAfter_legible medium watcher history)
    (storeAfter_tellsLiveVersions medium watcher history)
    (storeAfter_consistent medium watcher history)
    (storeAfter_threaded medium watcher history) hrow hlive

/-- One agent replies to another, and both the post and the reply are taken up. -/
def debated : History := [
  (⟨0, 0⟩, .createDiscussion { slug := "energy", topic := "Energy" }),
  (⟨1, 0⟩, .createPost { discussion := 1, creator := 7 }),
  (⟨2, 0⟩, .createPost { discussion := 1, creator := 8, parent := some 1 }),
  (⟨3, 0⟩, .linkContent { idea := some 1, post := 1, kind := .relatedPost, creator := 7 }),
  (⟨4, 0⟩, .linkContent { idea := some 1, post := 2, kind := .extract, creator := 7 })]

/-- The reply goes back to two pivots, so that its author comes first, though the other one
began. -/
theorem debated_reply_outranks :
    let aggregator : Aggregator := ⟨storeAfter .memory .nobody debated, .native, {}⟩
    (aggregator.contributors 1).result = .ok [8, 7] ∧ ∃ first second, first.agent = 8 ∧
      second.agent = 7 ∧
      Ranking.Outranks .firstContribution first second ∧ aggregator.store.Credits 1 [1, 2] first ∧
      aggregator.store.Credits 1 [1, 2] second := by
  intro aggregator
  have hideas : (aggregator.subtree 1).result = .ok [1] := by
    rw [Aggregator.subtree, ClosureStrategy.descendants_native_eq]
    decide +kernel
  have hposts : aggregator.store.relatedPosts 1 [1] = [1, 2] := by
    rw [relatedPosts, ascending_eq_insertionSort]
    decide +kernel
  have hrelated : (aggregator.relatedPosts 1 1).result = .ok [1, 2] := by
    rw [Aggregator.relatedPosts_of_subtree hideas, hposts]
  have hlines : aggregator.store.contributions 1 [1] = [⟨7, 1, 1, 1⟩, ⟨8, 2, 1, 2⟩] := by
    simp only [contributions, contributionsOf, ascending_eq_insertionSort]
    decide +kernel
  have hranking : Ranking.contributors .firstContribution [⟨7, 1, 1, 1⟩, ⟨8, 2, 1, 2⟩] =
      [8, 7] := by
    rw [Ranking.contributors, Ranking.byKey_eq_insertionSort]
    decide +kernel
  obtain ⟨posts, ranked, htells, htold, -, -, hcredits, hordered, -, ideas, hfound, hany⟩ :=
    contributors_after_history .memory .nobody debated .native {} 1 _ rfl rfl
  obtain rfl := Except.ok.inj (hrelated.symm.trans htells)
  obtain rfl := Except.ok.inj (hideas.symm.trans hfound)
  have hmap : ranked.map (·.agent) = [8, 7] := (hany _ (.of_eq hlines.symm)).symm.trans hranking
  obtain ⟨first, rest, rfl, hfirst, hrest⟩ := List.map_eq_cons_iff.mp hmap
  obtain ⟨second, none, rfl, hsecond, -⟩ := List.map_eq_cons_iff.mp hrest
  rw [hmap] at htold
  exact ⟨htold, first, second, hfirst, hsecond,
    List.rel_of_pairwise_cons hordered List.mem_cons_self,
    hcredits first (by simp), hcredits second (by simp)⟩

end Session

end Deliberation
