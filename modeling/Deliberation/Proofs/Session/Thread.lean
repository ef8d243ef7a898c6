import Deliberation.Proofs.Session.History
import Deliberation.Proofs.Store.Condition

/-!
Ancestries of the posts in every database that only requests have changed. A post is never changed
once it is there, so only the request that adds one has to be looked into.
-/

namespace Deliberation

open Store

/-- A request leaves the posts alone, or it adds one whose ancestry goes on from the post replied
to. -/
theorem Request.Effect.posts {now : Timestamp} {request : Request} {store after : Store}
    {receipt : Receipt request.Reply} (heffect : request.Effect now store receipt after) :
    after.posts = store.posts ∨
    ∃ row, store.posts.size < Table.capacity ∧ after.posts = store.posts.push row ∧
      ((row.parent = none ∧ row.ancestry = "") ∨
        ∃ parent above, row.parent = some parent ∧ store.posts.get? parent = some above ∧
          row.ancestry = Ancestry.child above.ancestry parent) := by
  cases heffect with
  | createPost _ hfits hpath =>
    refine Or.inr ⟨_, hfits, rfl, ?_⟩
    rcases hpath with hroot | ⟨parent, above, hreply, habove, -, hchild⟩
    · exact Or.inl hroot
    · exact Or.inr ⟨parent, above, hreply, habove, hchild⟩
  | _ => exact Or.inl rfl

theorem Session.storeAfter_threaded (medium : Medium) (watcher : Watcher) (history : History) :
    Threaded (storeAfter medium watcher history).posts := by
  refine storeAfter_of_kept (P := fun store => Threaded store.posts) threaded_empty ?_ medium
    watcher history
  intro now request store after receipt heffect hthreaded
  rcases heffect.posts with hsame | ⟨row, -, hpushed, hpath⟩
  · rw [hsame]
    exact hthreaded
  · rw [hpushed]
    exact hthreaded.push hpath

/-- The numbers of posts never run out of the range of ids. -/
theorem Session.storeAfter_inRange (medium : Medium) (watcher : Watcher) (history : History)
    {id : Id} {row : PostRow}
    (hrow : (storeAfter medium watcher history).posts.get? id = some row) : id.InRange := by
  refine Table.inRange_of_fits ?_ hrow
  refine storeAfter_of_kept (P := fun store => store.posts.size ≤ Table.capacity) (Nat.zero_le _) ?_
    medium watcher history
  intro now request store after receipt heffect hfits
  rcases heffect.posts with hsame | ⟨row, hroom, hpushed, -⟩
  · rw [hsame]
    exact hfits
  · rw [hpushed, Table.size_push]
    exact hroom

namespace Session

/-- Whatever was asked of a new database before: the ancestry of a post, read as ids, is the thread
of the post down to the one that it replies to, and the condition for lying in the reply subtree of
a post holds of that post and of those that go back to it by replies, and of no other. -/
theorem ancestry_after_history (medium : Medium) (watcher : Watcher) (history : History) :
    let posts := (storeAfter medium watcher history).posts
    (∀ post row, posts.get? post = some row → Thread posts post (Ancestry.ids row.ancestry)) ∧
    ∀ sub root : String, (Condition.inSubtree sub root).written =
      Ancestry.subtreeCondition sub root ∧
      ∀ rows : String → Id × PostRow, posts.get? (rows sub).1 = some (rows sub).2 →
        posts.get? (rows root).1 = some (rows root).2 →
        ((Condition.inSubtree sub root).holds rows ↔ (rows sub).1 = (rows root).1 ∨
          Relation.TransGen (RepliesTo posts) (rows sub).1 (rows root).1) := by
  intro posts
  have hthreaded : Threaded posts := storeAfter_threaded medium watcher history
  refine ⟨fun post row hrow => ?_, fun sub root => ⟨Condition.written_inSubtree sub root, ?_⟩⟩
  · exact hthreaded.thread_ids (fun _ _ => storeAfter_inRange medium watcher history) hrow
  · intro rows hsub hroot
    rw [Condition.holds_inSubtree, liesUnder_iff hthreaded hroot hsub,
      Relation.reflTransGen_iff_eq_or_transGen, eq_comm]

/-- Posts in two threads, where the id of one root begins with that of the other. -/
def branching : History :=
  (⟨0, 0⟩, .createDiscussion { slug := "energy", topic := "Energy" }) ::
    (List.replicate 11 (⟨1, 0⟩, .createPost { discussion := 1, creator := 7 }) ++ [
      (⟨2, 0⟩, .createPost { discussion := 1, creator := 8, parent := some 11 }),
      (⟨3, 0⟩, .createPost { discussion := 1, creator := 9, parent := some 12 })])

/-- A reply in the thread of post 11 is not taken for one in the thread of post 1. -/
theorem branching_reply_told :
    let posts := (storeAfter .memory .nobody branching).posts
    Thread posts 13 [11, 12] ∧ Relation.TransGen (RepliesTo posts) 13 11 ∧
      ¬ Relation.TransGen (RepliesTo posts) 13 1 := by
  intro posts
  obtain ⟨hthread, hcondition⟩ := ancestry_after_history .memory .nobody branching
  have hposts : ((posts.get? 1).map (·.ancestry), (posts.get? 11).map (·.ancestry),
      (posts.get? 13).map (·.ancestry)) = (some "", some "", some "11,12,") := by decide +kernel
  simp only [Prod.mk.injEq, Option.map_eq_some_iff] at hposts
  obtain ⟨⟨first, hfirst, hfree⟩, ⟨root, hroot, hstart⟩, reply, hreply, hpath⟩ := hposts
  have hnamed : Ancestry.ids "11,12," = [11, 12] := by decide +kernel
  have hunder : liesUnder (11, root) (13, reply) = true := by
    simp only [liesUnder, hstart, hpath]
    decide +kernel
  have hapart : liesUnder (1, first) (13, reply) = false := by
    simp only [liesUnder, hfree, hpath]
    decide +kernel
  let rows (above : Id × PostRow) (name : String) : Id × PostRow :=
    if name = "sub" then (13, reply) else above
  refine ⟨hnamed ▸ hpath ▸ hthread 13 reply hreply, ?_, fun hchain => ?_⟩
  · have hholds := (hcondition "sub" "root").2 (rows (11, root)) hreply hroot
    rw [Condition.holds_inSubtree] at hholds
    exact (hholds.mp hunder).resolve_left (by decide : ¬ (13 : Id) = 11)
  · have hholds := (hcondition "sub" "root").2 (rows (1, first)) hreply hfirst
    rw [Condition.holds_inSubtree] at hholds
    exact Bool.false_ne_true (hapart.symm.trans (hholds.mpr (Or.inr hchain)))

end Session

end Deliberation
