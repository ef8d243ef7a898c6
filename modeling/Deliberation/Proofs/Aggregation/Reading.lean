import Deliberation.Proofs.Aggregation.Counts
import Deliberation.Proofs.Aggregation.Showing

/-!
What one reading changes. Recording that an agent has read a post, and taking this back, leave the
graph and the posts as they are, so all that can change are the numbers of posts that this agent has
read. They change where the post is related to a live idea, and there by one, unless the agent has
read the post at another time too.
-/

namespace Deliberation

namespace Store

variable {store : Store} {actions : Table ActionRow} {discussion agent post : Id} {ideas : List Id}
  {user : Option Id}

/-- The readings of a store and one more, which may be there already. -/
def ReadsOneMore (fewer more : Store) (agent post : Id) : Prop :=
  ∀ reader read, more.ReadBy reader read ↔ fewer.ReadBy reader read ∨ (reader = agent ∧ read = post)

/-- The first reading of a related post counts. -/
theorem ReadsOneMore.read_succ (h : store.ReadsOneMore { store with actions } agent post)
    (hfirst : ¬store.ReadBy agent post) (hpost : post ∈ store.relatedPosts discussion ideas) :
    (relatedCounts { store with actions } discussion ideas (some agent)).read =
      (store.relatedCounts discussion ideas (some agent)).read + 1 := by
  have hinsert : readPosts { store with actions } discussion ideas (some agent) =
      insert post (store.readPosts discussion ideas (some agent)) := by
    ext read
    simp only [readPosts, Option.mem_some_iff, exists_eq_left', h agent read, true_and,
      Set.mem_ofPred_eq, Set.mem_insert_iff]
    constructor
    · rintro ⟨hread, hknown | hnew⟩
      · exact Or.inr ⟨hread, hknown⟩
      · exact Or.inl hnew
    · rintro (rfl | ⟨hread, hknown⟩)
      · exact ⟨hpost, Or.inr rfl⟩
      · exact ⟨hread, Or.inl hknown⟩
  have hnew : post ∉ store.readPosts discussion ideas (some agent) := by
    rintro ⟨-, reader, hreader, hread⟩
    cases hreader
    exact hfirst hread
  have hsize := congrArg Set.encard hinsert
  rw [Set.encard_insert_of_notMem hnew, encard_readPosts, encard_readPosts] at hsize
  exact_mod_cast hsize

/-- A reading makes no difference to the counts of another user, to those of a post that was read
before, and to those of ideas that the post is not related to. -/
theorem ReadsOneMore.read_eq (h : store.ReadsOneMore { store with actions } agent post)
    (hnothing : ¬(user = some agent ∧ ¬store.ReadBy agent post ∧
      post ∈ store.relatedPosts discussion ideas)) :
    (relatedCounts { store with actions } discussion ideas user).read =
      (store.relatedCounts discussion ideas user).read := by
  have hsame : readPosts { store with actions } discussion ideas user =
      store.readPosts discussion ideas user := by
    ext read
    refine and_congr_right fun hread => exists_congr fun reader => and_congr_right fun hreader => ?_
    rw [h reader read, or_iff_left_iff_imp]
    rintro ⟨rfl, rfl⟩
    by_contra hfirst
    exact hnothing ⟨hreader, hfirst, hread⟩
  have hsize := congrArg Set.encard hsame
  rw [encard_readPosts, encard_readPosts] at hsize
  exact_mod_cast hsize

end Store

namespace Aggregator

open Store

variable {aggregator fewer more : Aggregator} {actions : Table ActionRow} {agent post idea : Id}
  {user : Option Id}

/-- The same questions, asked of a store with other actions. -/
def withActions (aggregator : Aggregator) (actions : Table ActionRow) : Aggregator :=
  { aggregator with store := { aggregator.store with actions } }

/-- A post is related to a live idea within the discussion of the idea. -/
def IsBelow (aggregator : Aggregator) (post idea : Id) : Prop :=
  ∃ row posts, aggregator.store.ideas.get? idea = some row ∧ row.isLive ∧
    (aggregator.relatedPosts row.discussion idea).result = .ok posts ∧ post ∈ posts

/-- Asked how many posts below an idea an agent has read, two states give different answers. -/
def ReadsDiffer (fewer more : Aggregator) (agent idea : Id) : Prop :=
  (fewer.readCount idea (some agent)).result ≠ (more.readCount idea (some agent)).result

structure OneMoreRead (fewer more : Aggregator) (agent post : Id) : Prop where
  /-- A reading makes a difference if it is the only one, and below live ideas that the post is
  related to. -/
  differ_iff : ∀ idea, fewer.ReadsDiffer more agent idea ↔
    ¬fewer.store.ReadBy agent post ∧ fewer.IsBelow post idea
  by_one : ∀ idea, fewer.ReadsDiffer more agent idea →
    ∃ count, (fewer.readCount idea (some agent)).result = .ok count ∧
      (more.readCount idea (some agent)).result = .ok (count + 1)
  shown : ∀ idea, fewer.ReadsDiffer more agent idea →
    ∃ ideas, (fewer.ideasShowing post).result = .ok ideas ∧ idea ∈ ideas
  totals : ∀ idea user, (more.postCount idea).result = (fewer.postCount idea).result ∧
    (more.postCounts idea user).result.map (·.total) =
      (fewer.postCounts idea user).result.map (·.total)
  others : ∀ idea user, user ≠ some agent →
    (more.readCount idea user).result = (fewer.readCount idea user).result ∧
      (more.postCounts idea user).result = (fewer.postCounts idea user).result
  orphans : ∀ discussion, (more.orphans discussion).result = (fewer.orphans discussion).result
  /-- It does not matter which of the states is asked for what is related and for what shows the
  post. -/
  below_iff : ∀ other idea, more.IsBelow other idea ↔ fewer.IsBelow other idea
  showing_eq : (more.ideasShowing post).result = (fewer.ideasShowing post).result

theorem ancestorsOfEach_withActions (ideas : List Id) :
    (aggregator.withActions actions).ancestorsOfEach ideas = aggregator.ancestorsOfEach ideas :=
  ancestorsOfEach_congr fun _ _ => rfl

theorem ideasShowing_withActions :
    (aggregator.withActions actions).ideasShowing post = aggregator.ideasShowing post := by
  simp only [ideasShowing, showing, ancestorsOfEach_withActions]
  rfl

theorem readCount_congr (h : (more.counts idea user).result = (fewer.counts idea user).result) :
    (more.readCount idea user).result = (fewer.readCount idea user).result := by
  cases user with
  | none => rfl
  | some agent => rw [readCount_result, readCount_result, h]

section

variable (hlegible : aggregator.store.Legible) (hversions : aggregator.store.TellsLiveVersions)
  (hreads : aggregator.store.ReadsOneMore (aggregator.withActions actions).store agent post)

include hlegible hversions hreads

/-- Below a live idea both states count the same posts, and each counts its own readings. -/
theorem counts_withActions_of_live {row : IdeaRow}
    (hrow : aggregator.store.ideas.get? idea = some row) (hlive : row.isLive) (user : Option Id) :
    ∃ posts counts read, (aggregator.relatedPosts row.discussion idea).result = .ok posts ∧
      (aggregator.counts idea user).result = .ok counts ∧
      ((aggregator.withActions actions).counts idea user).result = .ok { counts with read } ∧
      (user = some agent → ¬aggregator.store.ReadBy agent post → post ∈ posts →
        read = counts.read + 1) ∧
      (¬(user = some agent ∧ ¬aggregator.store.ReadBy agent post ∧ post ∈ posts) →
        read = counts.read) := by
  obtain ⟨ideas, hideas, -⟩ := aggregator.subtree_result idea
  have hmoreLegible : (aggregator.withActions actions).store.Legible := { hlegible with }
  refine ⟨_, _, _, relatedPosts_of_subtree hideas row.discussion,
    counts_of_live hlegible hversions hrow hlive hideas user,
    counts_of_live hmoreLegible hversions hrow hlive hideas user, ?_, hreads.read_eq⟩
  rintro rfl hfirst hpost
  exact hreads.read_succ hfirst hpost

omit hlegible hversions hreads in
/-- Below an idea that is not live no reading makes a difference. -/
theorem counts_withActions_of_dead (h : aggregator.store.isLiveIdea idea = false)
    (user : Option Id) :
    ((aggregator.withActions actions).counts idea user).result =
      (aggregator.counts idea user).result := by
  have hmore : (aggregator.withActions actions).store.isLiveIdea idea = false := h
  rw [counts_of_dead h, counts_of_dead hmore]
  rfl

theorem total_withActions (idea : Id) (user : Option Id) :
    ((aggregator.withActions actions).counts idea user).result.map (·.total) =
      (aggregator.counts idea user).result.map (·.total) := by
  cases hidea : aggregator.store.isLiveIdea idea with
  | true =>
    obtain ⟨row, hrow, hlive⟩ := isLiveIdea_iff.mp hidea
    obtain ⟨posts, counts, read, -, hfewer, hmore, -⟩ :=
      counts_withActions_of_live hlegible hversions hreads hrow hlive user
    rw [hfewer, hmore]
    rfl
  | false => rw [counts_withActions_of_dead hidea]

/-- No count of another agent changes, and none below ideas that the post is not related to. -/
theorem counts_withActions_eq (idea : Id) (user : Option Id)
    (h :
      ¬(user = some agent ∧ ¬aggregator.store.ReadBy agent post ∧ aggregator.IsBelow post idea)) :
    ((aggregator.withActions actions).counts idea user).result =
      (aggregator.counts idea user).result := by
  cases hidea : aggregator.store.isLiveIdea idea with
  | true =>
    obtain ⟨row, hrow, hlive⟩ := isLiveIdea_iff.mp hidea
    obtain ⟨posts, counts, read, hposts, hfewer, hmore, -, hsame⟩ :=
      counts_withActions_of_live hlegible hversions hreads hrow hlive user
    have hread : read = counts.read := by
      refine hsame ?_
      rintro ⟨huser, hfirst, hpost⟩
      exact h ⟨huser, hfirst, row, posts, hrow, hlive, hposts, hpost⟩
    rw [hfewer, hmore, hread]
  | false => exact counts_withActions_of_dead hidea user

/-- The first reading of a post raises the count of every idea that it belongs below. -/
theorem readCount_withActions_succ (hfirst : ¬aggregator.store.ReadBy agent post)
    (hbelow : aggregator.IsBelow post idea) :
    ∃ count, (aggregator.readCount idea (some agent)).result = .ok count ∧
      ((aggregator.withActions actions).readCount idea (some agent)).result = .ok (count + 1) := by
  obtain ⟨row, related, hrow, hlive, hrelated, hpost⟩ := hbelow
  obtain ⟨posts, counts, read, hposts, hfewer, hmore, hsucc, -⟩ :=
    counts_withActions_of_live hlegible hversions hreads hrow hlive (some agent)
  obtain rfl := Except.ok.inj (hrelated.symm.trans hposts)
  refine ⟨counts.read, ?_, ?_⟩
  · rw [readCount_result, hfewer]
    rfl
  · rw [readCount_result, hmore, hsucc rfl hfirst hpost]
    rfl

/-- Where nothing but the actions differs, and they by one reading, the answers differ by one
reading. -/
theorem oneMoreRead_withActions (hconsistent : aggregator.store.Consistent)
    (hthreaded : Threaded aggregator.store.posts) (hrange : aggregator.store.PostsInRange) :
    aggregator.OneMoreRead (aggregator.withActions actions) agent post := by
  have hdiffer : ∀ idea, aggregator.ReadsDiffer (aggregator.withActions actions) agent idea ↔
      ¬aggregator.store.ReadBy agent post ∧ aggregator.IsBelow post idea := by
    intro idea
    constructor
    · intro hdiffer
      by_contra hnothing
      have hsame := counts_withActions_eq hlegible hversions hreads idea (some agent)
        fun h => hnothing h.2
      exact hdiffer (readCount_congr hsame).symm
    · rintro ⟨hfirst, hbelow⟩ hsame
      obtain ⟨count, hfewer, hmore⟩ :=
        readCount_withActions_succ hlegible hversions hreads hfirst hbelow
      rw [hfewer, hmore] at hsame
      exact absurd (Except.ok.inj hsame) (Nat.succ_ne_self count).symm
  constructor
  case differ_iff => exact hdiffer
  case by_one =>
    intro idea h
    obtain ⟨hfirst, hbelow⟩ := (hdiffer idea).mp h
    exact readCount_withActions_succ hlegible hversions hreads hfirst hbelow
  case shown =>
    intro idea h
    obtain ⟨-, row, related, -, -, hrelated, hpost⟩ := (hdiffer idea).mp h
    obtain ⟨again, hagain, -, hmem⟩ := relatedPosts_result hconsistent hthreaded row.discussion idea
    obtain rfl := Except.ok.inj (hrelated.symm.trans hagain)
    obtain ⟨-, -, hseen, -⟩ := (hmem post).mp hpost
    obtain ⟨posts, ideas, hposts, hideas, hshown, -⟩ :=
      relatedPosts_iff_ideasShowing hconsistent hlegible hthreaded hrange hseen idea
    obtain rfl := Except.ok.inj (hrelated.symm.trans hposts)
    exact ⟨ideas, hideas, hshown hpost⟩
  case totals =>
    intro idea user
    refine ⟨?_, total_withActions hlegible hversions hreads idea user⟩
    rw [postCount_result, postCount_result, total_withActions hlegible hversions hreads]
  case others =>
    intro idea user hother
    have hsame := counts_withActions_eq hlegible hversions hreads idea user fun h => hother h.1
    exact ⟨readCount_congr hsame, hsame⟩
  case orphans => exact fun _ => rfl
  case below_iff => exact fun _ _ => Iff.rfl
  case showing_eq => rw [ideasShowing_withActions]

end

end Aggregator

namespace Session

open Store

variable {session : Session} {now : Timestamp} {action agent post : Id}

theorem readsOneMore_recorded
    (h : (perform now (.recordAction ⟨.read, agent, post⟩) session).1 = .ok action) :
    session.store.ReadsOneMore
      (perform now (.recordAction ⟨.read, agent, post⟩) session).2.store agent post := by
  intro reader read
  simp only [ReadBy, hasAction_recordAction, h]
  constructor
  · rintro ⟨id, hold | ⟨-, hnew⟩⟩
    · exact Or.inl ⟨id, hold⟩
    · cases hnew
      exact Or.inr ⟨rfl, rfl⟩
  · rintro (⟨id, hold⟩ | ⟨rfl, rfl⟩)
    · exact ⟨id, Or.inl hold⟩
    · exact ⟨action, Or.inr ⟨rfl, rfl⟩⟩

theorem readBy_retracted_iff (h : (perform now (.retractAction action) session).1 = .ok ()) :
    (perform now (.retractAction action) session).2.store.ReadBy agent post ↔
      ∃ other ≠ action, session.store.HasAction other ⟨.read, agent, post⟩ := by
  unfold ReadBy
  simp only [hasAction_retractAction, h, true_and, and_comm, ne_comm]

theorem readsOneMore_retracted (h : (perform now (.retractAction action) session).1 = .ok ())
    (haction : session.store.HasAction action ⟨.read, agent, post⟩) :
    (perform now (.retractAction action) session).2.store.ReadsOneMore session.store
      agent post := by
  intro reader read
  rw [readBy_retracted_iff h]
  constructor
  · rintro ⟨other, hother⟩
    by_cases hsame : other = action
    · subst hsame
      obtain ⟨rfl, rfl⟩ : reader = agent ∧ read = post := by
        simpa using hother.unique haction
      exact Or.inr ⟨rfl, rfl⟩
    · exact Or.inl ⟨other, hsame, hother⟩
  · rintro (⟨other, -, hother⟩ | ⟨rfl, rfl⟩)
    · exact ⟨other, hother⟩
    · exact ⟨action, haction⟩

/-- After any history one more reading changes the answers as it should. -/
theorem oneMoreRead_storeAfter (medium : Medium) (watcher : Watcher) (history : History)
    (strategy : ClosureStrategy) (settings : Config.Analytics) {actions : Table ActionRow}
    (h : (storeAfter medium watcher history).ReadsOneMore
      { storeAfter medium watcher history with actions } agent post) :
    Aggregator.OneMoreRead ⟨storeAfter medium watcher history, strategy, settings⟩
      ⟨{ storeAfter medium watcher history with actions }, strategy, settings⟩ agent post :=
  Aggregator.oneMoreRead_withActions (storeAfter_legible medium watcher history)
    (storeAfter_tellsLiveVersions medium watcher history) h
    (storeAfter_consistent medium watcher history) (storeAfter_threaded medium watcher history)
    fun _ _ => storeAfter_inRange medium watcher history

/-- Whatever was asked of a new database before, and under either strategy: recording that an agent
has read a post adds one reading to what can be asked, and retracting such an action takes one away.
It is seen unless the agent has read the post at another time too. -/
theorem reading_after_history (medium : Medium) (watcher : Watcher) (history : History)
    (strategy : ClosureStrategy) (settings : Config.Analytics) (now : Timestamp) (agent post : Id) :
    let session := carryOut history (start medium watcher)
    let asked : Session → Aggregator := fun session => ⟨session.store, strategy, settings⟩
    (∀ action, (perform now (.recordAction ⟨.read, agent, post⟩) session).1 = .ok action →
      (asked session).OneMoreRead
        (asked (perform now (.recordAction ⟨.read, agent, post⟩) session).2) agent post) ∧
    (∀ action row, session.store.actions.get? action = some row → row.kind = .read →
      row.actor = agent → row.post = post →
        (perform now (.retractAction action) session).1 = .ok () →
      (asked (perform now (.retractAction action) session).2).OneMoreRead (asked session)
      agent post ∧ ((perform now (.retractAction action) session).2.store.ReadBy agent post ↔
        ∃ other ≠ action, session.store.HasAction other ⟨.read, agent, post⟩)) := by
  intro session asked
  constructor
  · intro action hrecorded
    have hreads := readsOneMore_recorded hrecorded
    have hstore := store_perform_action now session (Or.inl ⟨⟨.read, agent, post⟩, rfl⟩)
    simp only [asked]
    rw [hstore] at hreads ⊢
    exact oneMoreRead_storeAfter medium watcher history strategy settings hreads
  · rintro action row hrow hkind rfl rfl hretracted
    refine ⟨?_, readBy_retracted_iff hretracted⟩
    obtain ⟨what, again, hagain, hlive, hwhat⟩ := exists_hasAction_of_retracted hretracted
    obtain rfl := Option.some.inj (hagain.symm.trans hrow)
    have hreads := readsOneMore_retracted hretracted ⟨again, hagain, hlive, by rw [hkind]⟩
    have hstore := store_perform_action now session (Or.inr ⟨action, rfl⟩)
    have hlater : (perform now (.retractAction action) session).2.store =
        storeAfter medium watcher (history ++ [(now, .retractAction action)]) := by
      rw [storeAfter, carryOut_append]
      rfl
    have hearlier : session.store = { storeAfter medium watcher
        (history ++ [(now, .retractAction action)]) with actions := session.store.actions } := by
      rw [← hlater, hstore]
    simp only [asked]
    rw [hlater, hearlier] at hreads ⊢
    exact oneMoreRead_storeAfter medium watcher _ strategy settings hreads

def discussedAndRead : History := discussed ++ [(⟨6, 0⟩, .recordAction ⟨.read, 9, 2⟩)]

/-- The reply is related to the root by way of the post that it replies to. -/
theorem discussedAndRead_reply_below_root :
    Aggregator.IsBelow ⟨storeAfter .memory .nobody discussedAndRead, .native, {}⟩ 2 1 := by
  have hlink : (storeAfter .memory .nobody discussedAndRead).Linked 1 2 :=
    ⟨1, _, rfl, rfl, rfl, rfl⟩
  have hreply : RepliesTo (storeAfter .memory .nobody discussedAndRead).posts 2 1 := ⟨_, rfl, rfl⟩
  have htied : (storeAfter .memory .nobody discussedAndRead).TiedTo 1 2 :=
    ⟨1, _, rfl, rfl, rfl, Or.inr rfl⟩
  have hrelated : (storeAfter .memory .nobody discussedAndRead).IsRelatedTo 1 2 2 :=
    ⟨⟨_, rfl, rfl, rfl⟩, ⟨_, rfl, rfl, rfl, rfl⟩, 1, Relation.ReflTransGen.single hreply, htied⟩
  have hconsistent :
      (Aggregator.mk (storeAfter .memory .nobody discussedAndRead) .native {}).store.Consistent :=
    storeAfter_consistent .memory .nobody discussedAndRead
  obtain ⟨posts, hposts, -, hmem⟩ := Aggregator.relatedPosts_result hconsistent
    (storeAfter_threaded .memory .nobody discussedAndRead) 1 1
  have hpost : 2 ∈ posts := (hmem 2).mpr ⟨2, Relation.ReflTransGen.single hlink, hrelated⟩
  exact ⟨_, posts, rfl, rfl, hposts, hpost⟩

/-- Reading the reply once more does not show, and taking back the only reading does. -/
theorem discussedAndRead_only_reading_tells :
    let session := carryOut discussedAndRead (start .memory .nobody)
    let asked : Session → Aggregator := fun session => ⟨session.store, .native, {}⟩
    ¬(asked session).ReadsDiffer
        (asked (perform ⟨7, 0⟩ (.recordAction ⟨.read, 9, 2⟩) session).2) 9 1 ∧
      (asked (perform ⟨7, 0⟩ (.retractAction 1) session).2).ReadsDiffer (asked session) 9 1 := by
  intro session asked
  obtain ⟨hrecord, hretract⟩ :=
    reading_after_history .memory .nobody discussedAndRead .native {} ⟨7, 0⟩ 9 2
  have hagain := hrecord 2 rfl
  obtain ⟨honly, hothers⟩ := hretract 1 _ rfl rfl rfl rfl rfl
  constructor
  · intro hdiffer
    have hknown : session.store.ReadBy 9 2 := ⟨1, _, rfl, rfl, rfl⟩
    exact ((hagain.differ_iff 1).mp hdiffer).1 hknown
  · have hbelow := (honly.below_iff 2 1).mp discussedAndRead_reply_below_root
    refine (honly.differ_iff 1).mpr ⟨?_, hbelow⟩
    intro hread
    obtain ⟨other, hother, row, hrow, -⟩ := hothers.mp hread
    obtain ⟨hlow, hhigh⟩ : 1 ≤ other ∧ other < 2 := Table.exists_get?_iff.mp ⟨row, hrow⟩
    unfold Id at *
    omega

end Session

end Deliberation
