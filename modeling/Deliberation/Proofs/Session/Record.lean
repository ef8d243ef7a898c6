import Deliberation.Proofs.Session.Legible
import Deliberation.Proofs.Session.Deed
import Deliberation.Proofs.Store.Record

/-!
The store as a record of deeds. What each table holds follows from the requests that were carried
out and from their answers: the rows are what was created, numbered in that order. Nothing of them
changes later, except that a row may get its tombstone, and that an idea has its modifications
counted and is given what the patches say.
-/

namespace Deliberation

open Store

namespace Store

structure Records (store : Store) (deeds : List Deed) : Prop where
  discussions :
    store.discussions.Records (fun creation row => row = .ofNew creation.now creation.new)
    (Deed.discussions deeds)
  ideas : store.ideas.Records IdeaRow.IsOf (Deed.ideas deeds)
  links : store.links.Records LinkRow.IsOf (Deed.links deeds)
  posts : store.posts.Records
    (fun creation row => ∃ path, row = .ofNew creation.now creation.new path) (Deed.posts deeds)
  contents : store.contents.Records (fun creation row => row = .ofNew creation.now creation.new)
    (Deed.contents deeds)
  actions : store.actions.Records ActionRow.IsOf (Deed.actions deeds)

/-- What was created is read as it was created: discussions, posts and links always, and ideas
whenever they can be read at all. -/
structure ReadsBack (store : Store) (deeds : List Deed) : Prop where
  discussions : ∀ creation ∈ Deed.discussions deeds, store.findDiscussion creation.id = .ok (some
    ⟨creation.id, creation.new.slug, creation.new.topic, creation.new.locales, creation.now⟩)
  ideas : ∀ creation ∈ Deed.ideas deeds, ∀ found, store.findIdea creation.id = .ok found →
    ∃ modified tombstone version, found = some {
      id := creation.id
      discussion := creation.new.discussion
      kind := creation.new.kind
      shortTitle := creation.new.shortTitle
      longTitle := creation.new.longTitle
      definition := creation.new.definition
      hidden := creation.new.hidden
      created := creation.now
      modified, tombstone, version }
  links : ∀ creation ∈ Deed.links deeds, ∃ tombstone, store.findLink creation.id = .ok (some
    ⟨creation.id, creation.new.source, creation.new.target, creation.new.order.stored,
      creation.new.type, creation.now, tombstone⟩)
  posts : ∀ creation ∈ Deed.posts deeds, ∃ ancestry, store.findPost creation.id = .ok (some {
    id := creation.id
    discussion := creation.new.discussion
    kind := creation.new.kind
    creator := creation.new.creator
    parent := creation.new.parent
    ancestry
    subject := creation.new.subject
    body := creation.new.body
    hidden := creation.new.hidden
    created := creation.now })

theorem records_empty : ({} : Store).Records [] :=
  ⟨.empty, .empty, .empty, .empty, .empty, .empty⟩

end Store

namespace Request.Effect

variable {now : Timestamp} {request : Request} {store after : Store}
  {receipt : Receipt request.Reply} {past : List Deed}

/-- A discussion is recorded when it is opened, and no request changes it afterwards. -/
theorem records_discussions (heffect : request.Effect now store receipt after)
    (h : store.Records past) :
    after.discussions.Records (fun creation row => row = .ofNew creation.now creation.new)
      (Deed.discussions (past ++ [⟨now, request, receipt.reply⟩])) := by
  rw [Deed.discussions, List.filterMap_append]
  cases heffect with
  | createDiscussion => exact h.discussions.push rfl (DiscussionRow.ofNew_eq ..).symm
  | _ => exact h.discussions.append_none

/-- A post is recorded when it is created, with the path of its ancestry beside it. -/
theorem records_posts (heffect : request.Effect now store receipt after) (h : store.Records past) :
    after.posts.Records (fun creation row => ∃ path, row = .ofNew creation.now creation.new path)
      (Deed.posts (past ++ [⟨now, request, receipt.reply⟩])) := by
  rw [Deed.posts, List.filterMap_append]
  cases heffect with
  | createPost => exact h.posts.push rfl ⟨_, rfl⟩
  | _ => exact h.posts.append_none

theorem records_contents (heffect : request.Effect now store receipt after)
    (h : store.Records past) :
    after.contents.Records (fun creation row => row = .ofNew creation.now creation.new)
      (Deed.contents (past ++ [⟨now, request, receipt.reply⟩])) := by
  rw [Deed.contents, List.filterMap_append]
  cases heffect with
  | linkContent => exact h.contents.push rfl rfl
  | _ => exact h.contents.append_none

theorem actions_evolve (heffect : request.Effect now store receipt after) :
    store.actions.Evolves ActionRow.MayBecome after.actions := by
  cases heffect with
  | recordAction => exact (Table.Evolves.refl ActionRow.MayBecome.refl _).push _
  | retractAction hrow hlive =>
    refine Table.Evolves.update ActionRow.MayBecome.refl fun row hagain => ?_
    obtain rfl := Option.some.inj (hrow.symm.trans hagain)
    exact Or.inr ⟨hlive, now, rfl⟩
  | _ => exact Table.Evolves.refl ActionRow.MayBecome.refl _

/-- An action is recorded with what it said, whether it is in force or not. -/
theorem records_actions (heffect : request.Effect now store receipt after)
    (h : store.Records past) :
    after.actions.Records ActionRow.IsOf
      (Deed.actions (past ++ [⟨now, request, receipt.reply⟩])) := by
  have hevolves := heffect.actions_evolve
  rw [Deed.actions, List.filterMap_append]
  cases heffect with
  | recordAction => exact h.actions.push rfl ⟨rfl, rfl, rfl, rfl⟩
  | retractAction =>
    refine (h.actions.evolve Table.size_update hevolves ?_).append_none
    exact fun _ _ _ hlater hrow => hrow.mayBecome hlater
  | _ => exact h.actions.append_none

theorem links_evolve (heffect : request.Effect now store receipt after) :
    store.links.Evolves LinkRow.MayBecome after.links := by
  cases heffect with
  | tombstoneIdea => exact removeLinksOf_evolve now store _
  | moveIdea => exact (removeInbound_evolve now store _).push _
  | createLink => exact (Table.Evolves.refl LinkRow.MayBecome.refl _).push _
  | tombstoneLink hlink hlive => exact removeLink_evolve now hlink hlive
  | reorderLink _ hlink hlive => exact (removeLink_evolve now hlink hlive).push _
  | _ => exact Table.Evolves.refl LinkRow.MayBecome.refl _

/-- A link is recorded with its ends, order and type, whether it was removed or not. The link that
takes the part of a reordered one has its ends and its type. -/
theorem records_links (heffect : request.Effect now store receipt after) (h : store.Records past) :
    after.links.Records LinkRow.IsOf (Deed.links (past ++ [⟨now, request, receipt.reply⟩])) := by
  have hkeeps : ∀ creation (row later : LinkRow), row.MayBecome later → row.IsOf creation →
      later.IsOf creation := fun _ _ _ hlater hrow => hrow.mayBecome hlater
  rw [Deed.links_append]
  cases heffect with
  | tombstoneIdea =>
    exact (h.links.evolve Table.size_mapRows (removeLinksOf_evolve now store _) hkeeps).append_none
  | @moveIdea idea parent order =>
    have hremoved :=
      h.links.evolve Table.size_updateAll (removeInbound_evolve now store idea) hkeeps
    exact hremoved.push Table.nextId_updateAll.symm
      (LinkRow.isOf_ofNew ⟨store.links.nextId, now, _⟩)
  | createLink => exact h.links.push rfl (LinkRow.isOf_ofNew ⟨store.links.nextId, now, _⟩)
  | tombstoneLink hlink hlive =>
    exact (h.links.evolve Table.size_update (removeLink_evolve now hlink hlive) hkeeps).append_none
  | @reorderLink link order linkRow _ _ _ hlink hlive =>
    have hremoved := h.links.evolve Table.size_update (removeLink_evolve now hlink hlive) hkeeps
    obtain ⟨known, hknown, hid, -⟩ := h.links.exists_creation hlink
    obtain ⟨old, hfound⟩ :
      ∃ old, (Deed.links past).find? (fun other => other.id = link) = some old :=
      Option.isSome_iff_exists.mp (List.find?_isSome.mpr ⟨known, hknown, by simpa using hid⟩)
    obtain ⟨row, hrow, hisOf⟩ := h.links.rows old (List.mem_of_find?_eq_some hfound)
    have hsame : old.id = link := by simpa using List.find?_some hfound
    obtain rfl : row = linkRow := by
      rw [hsame] at hrow
      exact Option.some.inj (hrow.symm.trans hlink)
    rw [Deed.link?, hfound]
    refine hremoved.push Table.nextId_update.symm ⟨hisOf.source, hisOf.target, rfl, hisOf.type, rfl⟩
  | _ => exact h.links.append_none

/-- An idea is recorded with its fields as the patches have left them. -/
theorem records_ideas (heffect : request.Effect now store receipt after) (h : store.Records past)
    (hfresh : ∀ idea, store.ideas.get? idea = none → past.filterMap (Deed.patch? idea) = []) :
    after.ideas.Records IdeaRow.IsOf (Deed.ideas (past ++ [⟨now, request, receipt.reply⟩])) := by
  cases heffect with
  | createDiscussion | createIdea =>
    rw [Deed.ideas_append_of_some rfl (fun _ => rfl) (hfresh _ Table.get?_nextId)]
    exact h.ideas.push rfl (IdeaRow.isOf_ofNew ⟨store.ideas.nextId, now, _⟩)
  | @updateIdea idea patch row =>
    rw [Deed.ideas_append_of_none rfl]
    refine h.ideas.map Deed.amend_id Table.size_update fun creation _ row hrow hisOf => ?_
    rw [Table.get?_update, hrow]
    by_cases hsame : creation.id = idea
    · subst hsame
      refine ⟨_, if_pos rfl, ?_⟩
      rw [Deed.amend, Deed.patch?, if_pos rfl]
      exact (hisOf.patched patch).bumped
    · refine ⟨row, if_neg hsame, ?_⟩
      rw [Deed.amend, Deed.patch?, if_neg (Ne.symm hsame)]
      exact hisOf
  | tombstoneIdea =>
    rw [Deed.ideas_append_of_quiet rfl fun _ => rfl]
    exact (h.ideas.update (fun _ _ => IdeaRow.IsOf.deleted) _).updateAll
      (fun _ _ => IdeaRow.IsOf.bumped) _
  | moveIdea =>
    rw [Deed.ideas_append_of_quiet rfl fun _ => rfl]
    exact (h.ideas.updateAll (fun _ _ => IdeaRow.IsOf.bumped) _).update
      (fun _ _ => IdeaRow.IsOf.bumped) _
  | createLink | tombstoneLink | reorderLink =>
    rw [Deed.ideas_append_of_quiet rfl fun _ => rfl]
    exact h.ideas.update (fun _ _ => IdeaRow.IsOf.bumped) _
  | _ =>
    rw [Deed.ideas_append_of_quiet rfl fun _ => rfl]
    exact h.ideas

/-- Every request that succeeds adds to the record what it has created, and nothing else. -/
theorem records (heffect : request.Effect now store receipt after) (h : store.Records past)
    (hfresh : ∀ idea, store.ideas.get? idea = none → past.filterMap (Deed.patch? idea) = []) :
    after.Records (past ++ [⟨now, request, receipt.reply⟩]) :=
  ⟨heffect.records_discussions h, heffect.records_ideas h hfresh, heffect.records_links h,
    heffect.records_posts h, heffect.records_contents h, heffect.records_actions h⟩

theorem patches_of_none (heffect : request.Effect now store receipt after) (h : store.Sound)
    (hfresh : ∀ idea, store.ideas.get? idea = none → past.filterMap (Deed.patch? idea) = [])
    (idea : Id) (hnone : after.ideas.get? idea = none) :
    (past ++ [(⟨now, request, receipt.reply⟩ : Deed)]).filterMap (Deed.patch? idea) = [] := by
  have hturn := heffect.turn h idea
  rw [hnone] at hturn
  have hbefore : store.ideas.get? idea = none := by
    generalize Change.about idea receipt.changes = changes at hturn
    generalize store.ideas.get? idea = before at hturn ⊢
    cases hturn
    rfl
  rw [List.filterMap_append, hfresh idea hbefore, List.nil_append]
  cases heffect with
  | @updateIdea patched patch row version hrow =>
    have hother : patched ≠ idea := by
      rintro rfl
      simp [hbefore] at hrow
    have hnone : Deed.patch? idea ⟨now, .updateIdea patched patch, version⟩ = none := if_neg hother
    rw [List.filterMap_cons_none hnone, List.filterMap_nil]
  | _ => rfl

/-- A deleted idea stays as it is, whatever is asked of the store. -/
theorem ideas_evolve (heffect : request.Effect now store receipt after) (h : store.Sound) :
    store.ideas.Evolves IdeaRow.MayBecome after.ideas := by
  intro idea row hrow
  have hturn := heffect.turn h idea
  rw [hrow] at hturn
  generalize Change.about idea receipt.changes = changes at hturn
  generalize after.ideas.get? idea = later at hturn ⊢
  cases hturn with
  | kept => exact ⟨row, rfl, fun _ => rfl⟩
  | @modified _ new _ hlive | @deleted _ new hlive =>
    exact ⟨new, rfl, fun hdead => by simp [hlive] at hdead⟩

theorem continuesAs (heffect : request.Effect now store receipt after) (h : store.Sound) :
    store.ContinuesAs after where
  discussions := by
    cases heffect with
    | createDiscussion => exact (Table.Evolves.refl (fun _ => rfl) _).push _
    | _ => exact Table.Evolves.refl (fun _ => rfl) _
  ideas := heffect.ideas_evolve h
  links := heffect.links_evolve
  posts := by
    cases heffect with
    | createPost => exact (Table.Evolves.refl (fun _ => rfl) _).push _
    | _ => exact Table.Evolves.refl (fun _ => rfl) _
  contents := by
    cases heffect with
    | linkContent => exact (Table.Evolves.refl (fun _ => rfl) _).push _
    | _ => exact Table.Evolves.refl (fun _ => rfl) _
  actions := heffect.actions_evolve

end Request.Effect

namespace Store

variable {store : Store} {deeds : List Deed}

theorem ContinuesAs.refl (store : Store) : store.ContinuesAs store :=
  ⟨.refl (fun _ => rfl) _, .refl (fun _ _ => rfl) _, .refl LinkRow.MayBecome.refl _,
    .refl (fun _ => rfl) _, .refl (fun _ => rfl) _, .refl ActionRow.MayBecome.refl _⟩

theorem ContinuesAs.trans {a b c : Store} (hfirst : a.ContinuesAs b) (hsecond : b.ContinuesAs c) :
    a.ContinuesAs c where
  discussions := hfirst.discussions.trans Eq.trans hsecond.discussions
  ideas := hfirst.ideas.trans IdeaRow.MayBecome.trans hsecond.ideas
  links := hfirst.links.trans LinkRow.MayBecome.trans hsecond.links
  posts := hfirst.posts.trans Eq.trans hsecond.posts
  contents := hfirst.contents.trans Eq.trans hsecond.contents
  actions := hfirst.actions.trans ActionRow.MayBecome.trans hsecond.actions

/-- What the store records can be read from it. -/
theorem Records.readsBack (h : store.Records deeds) (hlegible : store.Legible) :
    store.ReadsBack deeds where
  discussions creation hcreation := by
    obtain ⟨row, hrow, rfl⟩ := h.discussions.rows creation hcreation
    refine find_eq_ok_some_iff.mpr ⟨_, hrow, ?_⟩
    rw [DiscussionRow.ofNew_eq]
    rfl
  ideas creation hcreation found hfound := by
    obtain ⟨row, hrow, hisOf⟩ := h.ideas.rows creation hcreation
    obtain ⟨idea, rfl, hread⟩ := exists_read_of_find hrow hfound
    obtain ⟨hkind, hcreated, -, -, -, hid, hdiscussion, hshort, hlong, hdefinition, hhidden⟩ :=
      IdeaRow.read_eq_ok_iff.mp hread
    have hsameKind := Cell.legible.inj (hisOf.kind.symm.trans hkind)
    have hsameDate := Cell.legible.inj (hisOf.created.symm.trans hcreated)
    refine ⟨idea.modified, idea.tombstone, idea.version, ?_⟩
    rw [hsameKind, hsameDate, ← hid, ← hisOf.discussion, ← hdiscussion, ← hisOf.shortTitle,
      ← hshort, ← hisOf.longTitle, ← hlong, ← hisOf.definition, ← hdefinition, ← hisOf.hidden,
      ← hhidden]
  links creation hcreation := by
    obtain ⟨row, hrow, hisOf⟩ := h.links.rows creation hcreation
    obtain ⟨-, tombstone, htombstone⟩ := hlegible.links creation.id row hrow
    exact ⟨tombstone, find_eq_ok_some_iff.mpr ⟨row, hrow, LinkRow.read_eq_ok_iff.mpr
      ⟨hisOf.created, htombstone, rfl, hisOf.source.symm, hisOf.target.symm, hisOf.order.symm,
        hisOf.type.symm⟩⟩⟩
  posts creation hcreation := by
    obtain ⟨row, hrow, path, rfl⟩ := h.posts.rows creation hcreation
    exact ⟨path, find_eq_ok_some_iff.mpr ⟨_, hrow, rfl⟩⟩

end Store

namespace Session

/-- Every later request leaves all rows in place. -/
theorem carryOut_continuesAs (history : History) {session : Session} (h : session.store.Sound) :
    session.store.ContinuesAs (carryOut history session).store := by
  have hkept : (carryOut history session).store.Sound ∧
      session.store.ContinuesAs (carryOut history session).store :=
    carryOut_keeps (P := fun store => store.Sound ∧ session.store.ContinuesAs store)
      (fun heffect hkept => ⟨heffect.sound hkept.1, hkept.2.trans (heffect.continuesAs hkept.1)⟩)
      history ⟨h, ContinuesAs.refl _⟩
  exact hkept.2

/-- The store of a database that only requests have changed records exactly the requests that were
carried out. The rows of each table are what these have created, numbered one, two, three and so on
in that order: links with the ends, order and type of their creation, and ideas with their first
titles, definition and visibility overwritten by the present fields of one patch after another. So
they are read back; and whatever is asked later, each row stays, no tombstone is lifted, and
discussions, posts and ties stay just as they are. -/
theorem storeAfter_is_appendOnly (medium : Medium) (watcher : Watcher) (history more : History) :
    (storeAfter medium watcher history).Records (deeds history (start medium watcher)) ∧
    (storeAfter medium watcher history).ReadsBack (deeds history (start medium watcher)) ∧
    (storeAfter medium watcher history).ContinuesAs
      (storeAfter medium watcher (history ++ more)) := by
  have hstart : (start medium watcher).store.Sound ∧ (start medium watcher).store.Records [] ∧
      ∀ idea, (start medium watcher).store.ideas.get? idea = none →
        List.filterMap (Deed.patch? idea) [] = [] :=
    ⟨sound_empty, records_empty, fun _ _ => rfl⟩
  have hrecorded := carryOut_deeds (P := fun past store => store.Sound ∧ store.Records past ∧
      ∀ idea, store.ideas.get? idea = none → past.filterMap (Deed.patch? idea) = [])
    (fun heffect ⟨hsound, hrecords, hfresh⟩ =>
      ⟨heffect.sound hsound, heffect.records hrecords hfresh,
        heffect.patches_of_none hsound hfresh⟩) history hstart
  obtain ⟨hsound, hrecords, -⟩ := hrecorded
  refine ⟨hrecords, hrecords.readsBack (storeAfter_legible medium watcher history), ?_⟩
  rw [storeAfter, storeAfter, carryOut_append]
  exact carryOut_continuesAs more hsound

end Session

end Deliberation
