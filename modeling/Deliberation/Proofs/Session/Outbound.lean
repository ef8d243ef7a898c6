import Deliberation.Proofs.Session.Course
import Deliberation.Proofs.Store.Outbound

/-!
Links are edited on behalf of the ideas that they start at: whoever watches an idea is told when it
gains or loses one. There is one gap. An idea that is moved loses all links that lead to it, and one
of them may start at the idea itself; nothing is counted and nothing is told then.
-/

namespace Deliberation

open Store

/-- The request moves an idea that has a live link to itself. -/
def Request.MovesLoop (request : Request) (store : Store) (idea : Id) : Prop :=
  (∃ parent order, request = .moveIdea idea parent order) ∧
    ∃ link row, (link, row) ∈ store.inbound idea ∧ row.source = idea

theorem Request.exists_modified {idea : Id} {versions : List (Id × Nat)}
    (h : idea ∈ versions.map (·.1)) :
    ∃ version, Change.modified idea version ∈ modified versions := by
  obtain ⟨⟨_, version⟩, hentry, rfl⟩ := List.mem_map.mp h
  exact ⟨version, List.mem_map.mpr ⟨_, hentry, rfl⟩⟩

/-- An idea that is neither deleted nor told of as modified has the same outbound links as before,
unless it has been moved and had one to itself. -/
theorem Request.Effect.outbound {now : Timestamp} {request : Request} {store after : Store}
    {receipt : Receipt request.Reply} (heffect : request.Effect now store receipt after) {idea : Id}
    (hkept : Change.deleted idea ∉ receipt.changes)
    (hquiet : ∀ version, Change.modified idea version ∉ receipt.changes)
    (hloop : ¬ request.MovesLoop store idea) : after.outbound idea = store.outbound idea := by
  cases heffect with
  | @tombstoneIdea gone _ _ versions _ _ _ _ hparents =>
    have hother : idea ≠ gone := by
      rintro rfl
      exact hkept List.mem_cons_self
    refine outbound_removeLinksOf hother ?_
    rintro link row hinbound rfl
    have hparent := mem_linkedParents_iff.mpr ⟨⟨link, row, hinbound, rfl⟩, hother⟩
    rw [← hparents] at hparent
    obtain ⟨version, htold⟩ := exists_modified hparent
    exact hquiet version (List.mem_cons_of_mem _ htold)
  | @moveIdea moved parent order version versions _ _ _ _ hformer =>
    have hparent : parent ≠ idea := by
      rintro rfl
      exact hquiet version (List.mem_append_right _ (List.mem_singleton_self _))
    refine (outbound_pushLink hparent).trans (outbound_removeLinks ?_)
    rintro link hlink ⟨row, hrow, hlive, rfl⟩
    obtain ⟨⟨_, again⟩, hinbound, rfl⟩ := List.mem_map.mp hlink
    obtain ⟨hagain, -⟩ := mem_liveLinks_iff.mp (List.mem_filter.mp hinbound).1
    obtain rfl : row = again := Option.some.inj (hrow.symm.trans hagain)
    have hmoved : row.source ≠ moved := by
      rintro rfl
      exact hloop ⟨⟨parent, order, rfl⟩, _, row, hinbound, rfl⟩
    have hlost := mem_formerParents_iff.mpr ⟨⟨_, row, hinbound, rfl⟩, hparent.symm, hmoved⟩
    rw [← hformer] at hlost
    obtain ⟨version, htold⟩ := exists_modified hlost
    exact hquiet version (List.mem_append_left _ htold)
  | @createLink _ _ version =>
    refine outbound_pushLink ?_
    rintro rfl
    exact hquiet version (List.mem_singleton_self _)
  | @tombstoneLink _ _ _ version hlink =>
    refine outbound_removeLink hlink ?_
    rintro rfl
    exact hquiet version (List.mem_singleton_self _)
  | @reorderLink _ _ linkRow _ version _ hlink =>
    have hother : linkRow.source ≠ idea := by
      rintro rfl
      exact hquiet version (List.mem_singleton_self _)
    refine Eq.trans (outbound_pushLink ?_) (outbound_removeLink hlink hother)
    exact hother
  | _ => rfl

/-- Moving an idea tells nothing of the idea itself. -/
theorem Request.Effect.move_silent {now : Timestamp} {idea parent : Id} {order : Place}
    {store after : Store} {receipt : Receipt Id}
    (heffect : Effect now store (.moveIdea idea parent order) receipt after) :
    Change.about idea receipt.changes = [] := by
  cases heffect with
  | @moveIdea _ _ _ version versions _ hother _ _ hformer =>
    have hleft : idea ∉ versions.map (·.1) := by
      rw [hformer]
      exact fun h => (mem_formerParents_iff.mp h).2.2 rfl
    rw [Change.about_append, Change.about_modified_of_notMem hleft, Change.about_cons, Change.idea,
      if_neg hother]
    rfl

namespace Session

/-- From one session to the other a modification of an idea has been counted, and has been told
once, with the version that is stored now. -/
def TellsModification (before after : Session) (idea : Id) : Prop :=
  ∃ (old new : IdeaRow) (version : Nat) (changes : List Change),
    before.store.ideas.get? idea = some old ∧ old.version = .whole version ∧
    after.store.ideas.get? idea = some new ∧ new.version = .whole (version + 1 : Nat) ∧
    after.noticed = before.noticed ++ changes ∧
    Change.about idea changes = [.modified idea (version + 1)]

/-- From one session to the other an idea has been left as it was, and nothing has been told of
it. -/
def PassesOver (before after : Session) (idea : Id) : Prop :=
  after.store.ideas.get? idea = before.store.ideas.get? idea ∧
    ∃ changes, after.noticed = before.noticed ++ changes ∧ Change.about idea changes = []

/-- The watcher is told what the receipt of a request that is carried out says. -/
theorem exists_receipt {now : Timestamp} {request : Request} {reply : request.Reply}
    {session after : Session} (hdone : perform now request session = (.ok reply, after))
    (hwatched : session.watcher ≠ .nobody) :
    ∃ receipt, request.Effect now session.store receipt after.store ∧
      after.noticed = session.noticed ++ receipt.changes := by
  obtain ⟨receipt, -, heffect, hnoticed⟩ := exists_effect hdone
  exact ⟨receipt, heffect, hnoticed hwatched⟩

/-- Whatever has been asked of a new database before: if a request changes the outbound links of an
idea that is live afterwards, then a modification of the idea is counted and told; only a loop that
is lost by a move passes unnoticed. -/
theorem outbound_change_told (medium : Medium) {watcher : Watcher} (hwatched : watcher ≠ .nobody)
    (history : History) {now : Timestamp} {request : Request} {reply : request.Reply}
    {session after : Session} (hsession : carryOut history (start medium watcher) = session)
    (hdone : perform now request session = (.ok reply, after)) {idea : Id}
    (hlive : after.store.isLiveIdea idea)
    (hchanged : after.store.outbound idea ≠ session.store.outbound idea) :
    (request.MovesLoop session.store idea → PassesOver session after idea) ∧
    (¬ request.MovesLoop session.store idea → TellsModification session after idea) := by
  have hsound : session.store.Sound := hsession ▸ storeAfter_sound medium watcher history
  have hstill : session.watcher ≠ .nobody := by
    rw [← hsession, watcher_carryOut]
    exact hwatched
  obtain ⟨receipt, heffect, hnoticed⟩ := exists_receipt hdone hstill
  have hturn := heffect.turn hsound idea
  constructor
  · rintro ⟨⟨parent, order, rfl⟩, -⟩
    have hsilent := heffect.move_silent
    rw [hsilent] at hturn
    exact ⟨hturn.eq_of_silent, receipt.changes, hnoticed, hsilent⟩
  · intro hloop
    obtain ⟨new, hnew, hnewLive⟩ := isLiveIdea_iff.mp hlive
    have htold : Change.deleted idea ∈ Change.about idea receipt.changes ∨
        ∃ version, Change.modified idea version ∈ Change.about idea receipt.changes := by
      by_contra hnone
      push Not at hnone
      refine hchanged (heffect.outbound ?_ ?_ hloop)
      · exact fun hmem => hnone.1 (Change.mem_about_iff.mpr ⟨hmem, rfl⟩)
      · exact fun version hmem => hnone.2 version (Change.mem_about_iff.mpr ⟨hmem, rfl⟩)
    generalize hbefore : session.store.ideas.get? idea = before at hturn
    generalize hchanges : Change.about idea receipt.changes = changes at hturn htold
    rw [hnew] at hturn
    cases hturn with
    | kept => simp at htold
    | created => simp at htold
    | deleted _ hdead => simp [hdead] at hnewLive
    | modified holdLive _ hnext hread =>
      obtain ⟨number, hfits, hversion, -⟩ := storeAfter_version (hsession ▸ hbefore)
      rw [hversion holdLive] at hnext
      obtain ⟨rfl, -⟩ := Version.read_next_whole hfits (hnext ▸ hread)
      rw [Version.next_whole hfits] at hnext
      exact ⟨_, new, number, receipt.changes, hbefore, hversion holdLive, hnew, hnext,
        hnoticed, hchanges⟩

/-- A discussion with an idea 2 below nothing but itself. -/
def looped : Session := carryOut [
  (⟨0, 0⟩, .createDiscussion { slug := "energy", topic := "Energy" }),
  (⟨1, 0⟩, .createIdea { discussion := 1 }),
  (⟨2, 0⟩, .createLink { source := 2, target := 2 })] (start .memory .recording)

theorem second_loop_new :
    (perform ⟨3, 0⟩ (.createLink { source := 2, target := 2 }) looped).2.store.outbound 2 ≠
      looped.store.outbound 2 := by
  intro hsame
  have hnew : (2 : Id) ∈ looped.store.outbound 2 := hsame ▸ ⟨_, rfl, rfl, rfl⟩
  obtain ⟨row, hrow, -⟩ := hnew
  cases hrow

/-- The idea gains a link and the watcher is told. -/
theorem second_loop_told : ∃ reply after,
    perform ⟨3, 0⟩ (.createLink { source := 2, target := 2 }) looped = (.ok reply, after) ∧
    after.store.isLiveIdea 2 ∧ after.store.outbound 2 ≠ looped.store.outbound 2 ∧
    TellsModification looped after 2 := by
  have hdone : perform ⟨3, 0⟩ (.createLink { source := 2, target := 2 }) looped =
      (.ok 2, (perform ⟨3, 0⟩ (.createLink { source := 2, target := 2 }) looped).2) := rfl
  have hlive :
      (perform ⟨3, 0⟩ (.createLink { source := 2, target := 2 }) looped).2.store.isLiveIdea 2 :=
    rfl
  refine ⟨2, _, hdone, hlive, second_loop_new, ?_⟩
  refine (outbound_change_told .memory (by decide) _ rfl hdone hlive second_loop_new).2 ?_
  rintro ⟨⟨parent, order, hmove⟩, -⟩
  cases hmove

/-- Moving the idea takes its link to itself away, and the watcher is told of its new parent
only. -/
theorem lost_loop_not_told : ∃ reply after,
    perform ⟨3, 0⟩ (.moveIdea 2 1 .zero) looped = (.ok reply, after) ∧
    after.store.isLiveIdea 2 ∧ after.store.outbound 2 ≠ looped.store.outbound 2 ∧
    ¬ TellsModification looped after 2 := by
  have hreply : (perform ⟨3, 0⟩ (.moveIdea 2 1 .zero) looped).1.toOption = some 2 := by
    decide +kernel
  have hlive : (perform ⟨3, 0⟩ (.moveIdea 2 1 .zero) looped).2.store.isLiveIdea 2 := by
    decide +kernel
  have hremoved : ((perform ⟨3, 0⟩ (.moveIdea 2 1 .zero) looped).2.store.links.get? 1).any
      LinkRow.isLive = false := by decide +kernel
  have hnoticed : (perform ⟨3, 0⟩ (.moveIdea 2 1 .zero) looped).2.noticed =
      looped.noticed ++ [.modified 1 2] := by decide +kernel
  rcases hmove : perform ⟨3, 0⟩ (.moveIdea 2 1 .zero) looped with ⟨answer, after⟩
  rw [hmove] at hreply hlive hremoved hnoticed
  cases answer with
  | error e => cases hreply
  | ok reply =>
    refine ⟨reply, after, rfl, hlive, ?_, ?_⟩
    · intro hsame
      have hloop : (1 : Id) ∈ looped.store.outbound 2 := ⟨_, rfl, rfl, rfl⟩
      rw [← hsame] at hloop
      obtain ⟨row, hrow, hstill, -⟩ := hloop
      rw [hrow, Option.any_some, hstill] at hremoved
      cases hremoved
    · rintro ⟨_, _, version, changes, -, -, -, -, htold, habout⟩
      obtain rfl : [.modified 1 2] = changes := List.append_cancel_left (hnoticed.symm.trans htold)
      cases habout

end Session

end Deliberation
