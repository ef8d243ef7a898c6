import Deliberation.Proofs.Session.Consistency
import Deliberation.Proofs.Store.Within

/-!
Requests change one discussion. A request is for the discussion that it names itself, or that what
it names belongs to; what it goes on to touch belongs to the same discussion, since live links do
not leave it.
-/

namespace Deliberation

open Store

namespace Request

/-- A request is for a discussion. Where it names two things it may be either of them that belongs
there; if the other one does not, the request fails. -/
def IsFor (store : Store) (discussion : Id) : Request → Prop
  | .createDiscussion _ => False
  | .createIdea new => new.discussion = discussion
  | .updateIdea idea _ => store.HasIdea discussion idea
  | .tombstoneIdea idea => store.HasIdea discussion idea
  | .moveIdea idea parent _ => store.HasIdea discussion idea ∨ store.HasIdea discussion parent
  | .createLink new => store.HasIdea discussion new.source ∨ store.HasIdea discussion new.target
  | .tombstoneLink link =>
    ∃ row, store.links.get? link = some row ∧ store.HasIdea discussion row.source
  | .reorderLink link _ =>
    ∃ row, store.links.get? link = some row ∧ store.HasIdea discussion row.source
  | .createPost new => new.discussion = discussion
  | .linkContent new => store.HasPost discussion new.post ∨
    ∃ idea, new.idea = some idea ∧ store.HasIdea discussion idea
  | .recordAction new => store.HasPost discussion new.post
  | .retractAction action =>
    ∃ row, store.actions.get? action = some row ∧ store.HasPost discussion row.post

def OpensDiscussion (request : Request) : Prop := ∃ new, request = .createDiscussion new

/-- A request keeps away from a discussion: it is for another one, or it opens one. -/
def KeepsAwayFrom (store : Store) (there : Id) (request : Request) : Prop :=
  (∃ here, here ≠ there ∧ request.IsFor store here) ∨ request.OpensDiscussion

end Request

namespace Store

variable {store : Store} {here there source target : Id}

theorem Linkable.hasIdea_ends (h : store.Linkable source target) :
    store.HasIdea here source ↔ store.HasIdea here target := by
  obtain ⟨parent, child, hparent, hchild, -, -, hsame⟩ := h
  simp [HasIdea, hparent, hchild, hsame]

theorem Linkable.hasIdea_of_or (h : store.Linkable source target)
    (hor : store.HasIdea here source ∨ store.HasIdea here target) :
    store.HasIdea here source ∧ store.HasIdea here target := by
  rw [h.hasIdea_ends, or_self] at hor
  exact ⟨h.hasIdea_ends.mpr hor, hor⟩

/-- The source of a live link at an idea of a discussion is in the discussion. -/
theorem Consistent.hasIdea_of_touches (h : store.Consistent) {idea link : Id} {row : LinkRow}
    (hidea : store.HasIdea here idea) (hrow : store.links.get? link = some row) (hlive : row.isLive)
    (htouches : row.touches idea) : store.HasIdea here row.source := by
  unfold LinkRow.touches at htouches
  rw [Bool.or_eq_true, beq_iff_eq, beq_iff_eq] at htouches
  rcases htouches with rfl | rfl
  · exact hidea
  · exact (h.hasIdea_ends hrow hlive).mpr hidea

theorem Consistent.hasIdea_of_inbound (h : store.Consistent) {idea : Id} {entry : Id × LinkRow}
    (hidea : store.HasIdea here idea) (hentry : entry ∈ store.inbound idea) :
    store.HasIdea here entry.2.source := by
  obtain ⟨hmem, htarget⟩ := List.mem_filter.mp hentry
  obtain ⟨hrow, hlive⟩ := mem_liveLinks_iff.mp hmem
  exact h.hasIdea_of_touches hidea hrow hlive (by simpa [LinkRow.touches] using Or.inr htarget)

end Store

variable {now : Timestamp} {request : Request} {store after : Store} {there : Id}

/-- A request for one discussion, or for a new one, leaves any other discussion as it was. -/
theorem Request.Effect.sameWithin {receipt : Receipt request.Reply}
    (heffect : request.Effect now store receipt after) (h : store.Consistent)
    (hthere : ∃ home, store.discussions.get? there = some home)
    (haway : request.KeepsAwayFrom store there) : SameWithin there store after := by
  have hsame := SameWithin.refl there store
  rcases haway with ⟨here, hapart, hfor⟩ | ⟨new, rfl⟩
  · have hidea : ∀ {idea}, store.HasIdea here idea → ¬ store.HasIdea there idea :=
      fun hhere hother => hapart (hhere.unique hother)
    have hpost : ∀ {post}, store.HasPost here post → ¬ store.HasPost there post :=
      fun hhere hother => hapart (hhere.unique hother)
    cases heffect with
    | createDiscussion => cases hfor
    | createIdea => exact hsame.pushIdea fun hother => hapart (hfor.symm.trans hother)
    | @updateIdea idea _ row _ hrow =>
      refine { hsame with ideas := hsame.ideas.update (fun other hother hhere => ?_) fun _ => id }
      exact hidea hfor ⟨other, hother, hhere⟩
    | tombstoneAgain => exact hsame
    | @tombstoneIdea idea =>
      have hlinks : SameWithin there store (store.removeLinksOf now idea) :=
        hsame.removeLinksOf fun link row hrow hlive htouches =>
          hidea (h.hasIdea_of_touches hfor hrow hlive htouches)
      refine (hlinks.bury (hidea hfor)).touchAll fun parent hparent => ?_
      obtain ⟨⟨link, row, hentry, rfl⟩, -⟩ := mem_linkedParents_iff.mp hparent
      exact hidea (h.hasIdea_of_inbound hfor hentry)
    | @moveIdea idea parent _ _ _ _ _ hlinkable =>
      obtain ⟨hparent, hchild⟩ := hlinkable.hasIdea_of_or hfor.symm
      have hremoved : ∀ link ∈ (store.inbound idea).map (·.1), ∀ row,
        store.links.get? link = some row → ¬ store.HasIdea there row.source := by
        intro link hlink row hrow
        obtain ⟨⟨_, again⟩, hentry, rfl⟩ := List.mem_map.mp hlink
        have hagain := (mem_liveLinks_iff.mp (List.mem_filter.mp hentry).1).1
        rw [Option.some.inj (hrow.symm.trans hagain)]
        exact hidea (h.hasIdea_of_inbound hchild hentry)
      have hformer : ∀ former ∈ store.formerParents idea parent, ¬ store.HasIdea there former := by
        intro former hformer
        obtain ⟨⟨link, row, hentry, rfl⟩, -⟩ := mem_formerParents_iff.mp hformer
        exact hidea (h.hasIdea_of_inbound hchild hentry)
      refine SameWithin.touch (((hsame.removeLinks hremoved).touchAll hformer).pushLink ?_)
        (hidea hparent)
      exact hidea hparent
    | createLink _ hlinkable =>
      have hsource := hidea (hlinkable.hasIdea_of_or hfor).1
      exact (hsame.pushLink hsource).touch hsource
    | tombstoneLink hlink =>
      obtain ⟨row, hrow, hsource⟩ := hfor
      obtain rfl := Option.some.inj (hlink.symm.trans hrow)
      exact (hsame.removeLink hlink (hidea hsource)).touch (hidea hsource)
    | reorderLink _ hlink =>
      obtain ⟨row, hrow, hsource⟩ := hfor
      obtain rfl := Option.some.inj (hlink.symm.trans hrow)
      refine SameWithin.touch (SameWithin.pushLink (hsame.removeLink hlink (hidea hsource)) ?_)
        (hidea hsource)
      exact hidea hsource
    | createPost => exact hsame.pushPost fun hother => hapart (hfor.symm.trans hother)
    | @linkContent new post hrow _ hties =>
      refine hsame.pushContent (hpost ?_)
      rcases hfor with hhere | ⟨idea, hnames, hhere⟩
      · exact hhere
      · obtain ⟨row, hidea, -, hdiscussion⟩ := hties idea hnames
        exact ⟨post, hrow, hdiscussion.symm.trans (HasIdea.unique ⟨row, hidea, rfl⟩ hhere)⟩
    | recordAction => exact hsame.pushAction (hpost hfor)
    | retractAction hrow =>
      obtain ⟨row, haction, hhere⟩ := hfor
      obtain rfl := Option.some.inj (hrow.symm.trans haction)
      exact hsame.retract hrow (hpost hhere)
  · obtain ⟨home, hhome⟩ := hthere
    cases heffect with
    | createDiscussion =>
      exact hsame.openDiscussion (Table.ne_nextId hhome) (Table.ne_nextId hhome).symm

namespace Session

variable {session : Session}

/-- A request that keeps away from a discussion leaves it as it was, whether it is carried out or
fails. -/
theorem perform_sameWithin (now : Timestamp) (h : session.store.Consistent)
    (hthere : ∃ home, session.store.discussions.get? there = some home)
    (haway : request.KeepsAwayFrom session.store there) :
    SameWithin there session.store (perform now request session).2.store := by
  rcases perform_cases now request session with ⟨receipt, -, heffect⟩ | ⟨e, -, hfailed⟩
  · exact heffect.sameWithin h hthere haway
  · rw [hfailed]
    exact SameWithin.refl there session.store

/-- Each request of a history keeps away from a discussion when its turn comes. -/
def KeepsAway (there : Id) : History → Session → Prop
  | [], _ => True
  | (now, request) :: rest, session =>
    request.KeepsAwayFrom session.store there ∧ KeepsAway there rest (perform now request session).2

/-- A history that keeps away from a discussion leaves it as it was. -/
theorem carryOut_sameWithin (history : History) (h : session.store.Sound)
    (hthere : ∃ home, session.store.discussions.get? there = some home)
    (haway : KeepsAway there history session) :
    SameWithin there session.store (carryOut history session).store := by
  induction history generalizing session with
  | nil => exact SameWithin.refl there session.store
  | cons entry rest ih =>
    obtain ⟨now, request⟩ := entry
    obtain ⟨hfirst, hrest⟩ := haway
    have hstep := perform_sameWithin now h.toConsistent hthere hfirst
    exact hstep.trans (ih (perform_keeps Request.Effect.sound h) (hstep.home ▸ hthere) hrest)

end Session

end Deliberation
