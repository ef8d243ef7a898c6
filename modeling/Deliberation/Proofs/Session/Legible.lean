import Deliberation.Proofs.Session.Course
import Deliberation.Proofs.Store.Readable

/-!
Reading what requests have written. No request writes a cell that means nothing, and a version that
cannot be told is refused together with the request that would have raised it so far. Only the
deletion of an idea raises the version without looking at it: the last version of a deleted idea can
be one too large.
-/

namespace Deliberation

open Store

/-- Every request that succeeds leaves all rows legible. -/
theorem Request.Effect.legible {now : Timestamp} {request : Request} {store after : Store}
    {receipt : Receipt request.Reply} (heffect : request.Effect now store receipt after)
    (h : store.Legible) : after.Legible := by
  cases heffect with
  | createDiscussion =>
    exact { h with
      discussions := h.discussions.push (DiscussionRow.isLegible_mk ..)
      ideas := h.ideas.push (IdeaRow.isLegible_ofNew _) }
  | createIdea => exact h.withIdeas (h.ideas.push (IdeaRow.isLegible_ofNew _))
  | updateIdea => exact h.withIdeas (h.ideas.update (fun _ hrow => (hrow.patched _).bumped) _)
  | tombstoneAgain => exact h
  | tombstoneIdea => exact ((h.removeLinksOf _).bury _).touchAll _
  | moveIdea => exact (((h.removeLinks _).touchAll _).pushLink _).touch _
  | createLink => exact (h.pushLink _).touch _
  | tombstoneLink => exact (h.removeLink _).touch _
  | reorderLink => exact ((h.removeLink _).pushLink _).touch _
  | createPost => exact { h with posts := h.posts.push (PostRow.isLegible_ofNew _ _) }
  | linkContent => exact { h with }
  | recordAction => exact { h with }
  | retractAction => exact { h with }

namespace Session

theorem storeAfter_legible (medium : Medium) (watcher : Watcher) (history : History) :
    (storeAfter medium watcher history).Legible :=
  storeAfter_of_kept legible_empty Request.Effect.legible medium watcher history

/-- After any history the version of every live idea can be told. -/
theorem storeAfter_tellsLiveVersions (medium : Medium) (watcher : Watcher) (history : History) :
    (storeAfter medium watcher history).TellsLiveVersions := by
  intro id row hrow hlive
  obtain ⟨version, hfits, hversion, -⟩ := storeAfter_version hrow
  rw [hversion hlive]
  exact ⟨version, Version.read_whole_eq_ok_iff.mpr ⟨rfl, hfits⟩⟩

/-- Whatever has been asked of a new database: no reader fails, except that a deleted idea whose
version has run out of the numbers that can be told cannot be looked at any more. -/
theorem storeAfter_readable (medium : Medium) (watcher : Watcher) (history : History) :
    (storeAfter medium watcher history).Readable ∧
    ∀ idea, (∃ found, (storeAfter medium watcher history).findIdea idea = .ok found) ∨
      ∃ row, (storeAfter medium watcher history).ideas.get? idea = some row ∧ row.isLive = false ∧
        row.version = .whole 4294967296 ∧
        (storeAfter medium watcher history).findIdea idea =
          .error (.database (.outOfRange 10 4294967296)) := by
  have hlegible := storeAfter_legible medium watcher history
  refine ⟨hlegible.readable (storeAfter_tellsLiveVersions medium watcher history), fun idea => ?_⟩
  cases hrow : (storeAfter medium watcher history).ideas.get? idea with
  | none => exact Or.inl ⟨none, by simp [findIdea, find, hrow, answer, pure, Except.pure]⟩
  | some row =>
    have hfound : ∀ {version}, row.version.read 10 = .ok version →
        ∃ found, (storeAfter medium watcher history).findIdea idea = .ok found := by
      intro version hread
      obtain ⟨value, hvalue⟩ := (hlegible.ideas idea row hrow).exists_read idea hread
      exact ⟨some value, find_eq_ok_some_iff.mpr ⟨row, hrow, hvalue⟩⟩
    obtain ⟨version, hfits, hlive, hdead⟩ := storeAfter_version hrow
    cases hrowLive : row.isLive with
    | true =>
      rw [hlive hrowLive] at hfound
      exact Or.inl (hfound (Version.read_whole_eq_ok_iff.mpr ⟨rfl, hfits⟩))
    | false =>
      rw [hdead hrowLive] at hfound
      by_cases hroom : version + 1 < 4294967296
      · exact Or.inl (hfound (Version.read_whole_eq_ok_iff.mpr ⟨rfl, hroom⟩))
      · obtain rfl : version = 4294967295 := by omega
        have hfault : row.version.read 10 = .error (.outOfRange 10 4294967296) := by
          rw [hdead hrowLive]
          exact Version.read_whole_eq_error (Nat.le_refl _)
        refine Or.inr ⟨row, rfl, hrowLive, hdead hrowLive, ?_⟩
        simp [findIdea, find, hrow, (hlegible.ideas idea row hrow).read_eq_error idea hfault,
          answer, Functor.map, Except.map]

/-- A discussion with an idea 2 that has a version. -/
def aged (version : Version) : Store where
  discussions := ⟨[⟨"energy", "Energy", .legible [], .legible ⟨0, 0⟩⟩]⟩
  ideas := ⟨[.ofNew ⟨0, 0⟩ (rootOf 1 "Energy"),
    { IdeaRow.ofNew ⟨0, 0⟩ { discussion := 1 } with version }]⟩

theorem perform_update_aged {version : Nat} (h : version + 1 < 4294967296) :
    ((Request.updateIdea 2 {}).perform ⟨0, 0⟩ (aged (.whole version))).2 =
      aged (.whole (version + 1 : Nat)) := by
  have hfits : version < 4294967296 := by omega
  have hversion : (Version.whole version).read 10 = .ok version :=
    Version.read_whole_eq_ok_iff.mpr ⟨rfl, hfits⟩
  have hnext : (Version.whole version).next.read 0 = .ok (version + 1) := by
    rw [Version.next_whole hfits]
    exact Version.read_whole_eq_ok_iff.mpr ⟨rfl, h⟩
  have hwrite : updateIdea ⟨0, 0⟩ 2 {} (aged (.whole version)) =
      (.ok (version + 1), aged (Version.whole version).next) :=
    updateIdea_progress rfl rfl ⟨rfl, rfl, rfl, isLegibleDate_none⟩ hversion hnext
  rw [← Version.next_whole hfits]
  exact congrArg Prod.snd (Attempt.bind_pure_eq_ok_iff.mpr ⟨_, hwrite, rfl⟩)

/-- Any number of updates raises it by that number, as long as it fits in 32 bits. -/
theorem carryOut_updates {updates version : Nat} (h : version + updates < 4294967296)
    {session : Session} (hstore : session.store = aged (.whole version)) :
    (carryOut (List.replicate updates (⟨0, 0⟩, .updateIdea 2 {})) session).store =
      aged (.whole (version + updates : Nat)) := by
  induction updates generalizing session version with
  | zero => exact hstore
  | succ updates ih =>
    have hnext : (perform ⟨0, 0⟩ (.updateIdea 2 {}) session).2.store =
        aged (.whole (version + 1 : Nat)) := by
      rw [store_perform, hstore, perform_update_aged (by omega)]
    rw [List.replicate_succ, carryOut, ih (by omega) hnext, Nat.add_right_comm, Nat.add_assoc]

/-- An idea is changed many times and then deleted. -/
def wornOut (updates : Nat) : History :=
  [(⟨0, 0⟩, .createDiscussion { slug := "energy", topic := "Energy" }),
    (⟨0, 0⟩, .createIdea { discussion := 1 })] ++
  (List.replicate updates (⟨0, 0⟩, .updateIdea 2 {}) ++ [(⟨0, 0⟩, .tombstoneIdea 2)])

theorem storeAfter_wornOut {updates : Nat} (h : 1 + updates < 4294967296) :
    storeAfter .memory .nobody (wornOut updates) =
      ((Request.tombstoneIdea 2).perform ⟨0, 0⟩ (aged (.whole (1 + updates : Nat)))).2 := by
  rw [storeAfter, wornOut, carryOut_append, carryOut_append, carryOut, carryOut, store_perform,
    carryOut_updates h rfl]

/-- The last number that can be told is reached by changes alone. The deletion that follows is not
refused, and the idea cannot be looked at from then on. -/
theorem wornOut_idea_unreadable :
    (storeAfter .memory .nobody (wornOut 4294967294)).findIdea 2 =
      .error (.database (.outOfRange 10 4294967296)) := by
  rw [storeAfter_wornOut (by decide)]
  decide +kernel

end Session

end Deliberation
