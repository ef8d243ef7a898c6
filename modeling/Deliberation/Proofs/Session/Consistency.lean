import Deliberation.Proofs.Session.History
import Deliberation.Proofs.Store.Consistency

/-!
Consistency of every database that only requests have changed. The writes check what they are asked
for, but a link that is put into another place is not checked again, and deleting an idea has to
find all its links itself. So consistency is an invariant, which each request keeps.
-/

namespace Deliberation

open Store

/-- Every request that succeeds keeps the store sound. -/
theorem Request.Effect.sound {now : Timestamp} {request : Request} {store after : Store}
    {receipt : Receipt request.Reply} (heffect : request.Effect now store receipt after)
    (h : store.Sound) : after.Sound := by
  cases heffect with
  | createDiscussion hslug => exact h.openDiscussion hslug rfl rfl rfl
  | @createIdea new hhome hfirst =>
    refine h.pushIdea ?_ hhome
    intro hroot
    obtain ⟨home, hhome⟩ := hhome
    obtain ⟨root, hunique, hlive⟩ := h.roots new.discussion home hhome
    obtain ⟨row, hrow, hdiscussion, hkind⟩ := (hunique root).mpr rfl
    obtain ⟨live, hlive, hrowLive⟩ := isLiveIdea_iff.mp hlive
    obtain rfl : row = live := Option.some.inj (hrow.symm.trans hlive)
    have hdead := hfirst (Cell.legible.inj hroot) root row hrow hdiscussion hkind
    rw [hdead] at hrowLive
    cases hrowLive
  | updateIdea => exact h.restand (sameStanding_update fun _ => rfl) rfl rfl rfl rfl
  | tombstoneAgain => exact h
  | @tombstoneIdea idea _ _ _ hrow hkind =>
    refine Sound.touchAll ?_ _
    refine (h.removeLinksOf idea).bury hrow hkind ?_
    intro id link hlink hlive
    exact (get?_removeLinksOf hlink hlive).2
  | @moveIdea _ parent _ _ _ _ _ hlinkable =>
    refine Sound.touch ?_ parent
    refine ((h.removeLinks _).touchAll _).pushLink ?_
    exact (sameStanding_touchAll _).linkable hlinkable
  | @createLink new _ _ _ hlinkable => exact (h.pushLink hlinkable).touch new.source
  | @tombstoneLink link linkRow => exact (h.removeLink link).touch linkRow.source
  | @reorderLink link _ linkRow _ _ _ hlink hlinkLive =>
    refine Sound.touch (Sound.pushLink (h.removeLink link) ?_) linkRow.source
    exact h.links link linkRow hlink hlinkLive
  | createPost _ _ hpath =>
    refine h.pushPost ?_
    intro parent hreply
    rcases hpath with ⟨hnone, -⟩ | ⟨other, above, hother, habove, hsame, -⟩
    · exact absurd (hnone.symm.trans hreply) (by simp)
    · obtain rfl := Option.some.inj (hother.symm.trans hreply)
      exact ⟨above, habove, hsame⟩
  | linkContent hpost hextract hidea =>
    refine h.pushContent hextract ?_
    intro idea hnames
    obtain ⟨named, hnamed, -, hsame⟩ := hidea idea hnames
    exact ⟨named, _, hnamed, hpost, hsame⟩
  | recordAction => exact h.withActions _
  | retractAction => exact h.withActions _

namespace Session

theorem storeAfter_sound (medium : Medium) (watcher : Watcher) (history : History) :
    (storeAfter medium watcher history).Sound :=
  storeAfter_of_kept sound_empty Request.Effect.sound medium watcher history

/-- Whatever is asked of a new database, and whether or not it is done, the store stays
consistent. -/
theorem storeAfter_consistent (medium : Medium) (watcher : Watcher) (history : History) :
    (storeAfter medium watcher history).Consistent :=
  (storeAfter_sound medium watcher history).toConsistent

end Session

end Deliberation
