import Deliberation.Proofs.Store.Write

/-!
What the success of a request means, with one case for each way in which one can succeed. Whatever
successful requests keep is proved by going through these cases; no proof beyond this one takes a
write apart.
-/

namespace Deliberation.Request

open Store

inductive Effect (now : Timestamp) (store : Store) :
    (request : Request) → Receipt request.Reply → Store → Prop where
  | createDiscussion {new : NewDiscussion}
      (hslug : ∀ known ∈ store.discussions.rows, known.slug ≠ new.slug)
      (hfirst : ∀ id row, store.ideas.get? id = some row →
        row.discussion = store.discussions.nextId → row.kind = .legible .root →
          row.isLive = false) :
      Effect now store (.createDiscussion new)
        ⟨(store.discussions.nextId, store.ideas.nextId), [.created store.ideas.nextId], []⟩
        { store with
          discussions := store.discussions.push
            ⟨new.slug, new.topic, .legible new.locales, .legible now⟩
          ideas := store.ideas.push (.ofNew now (rootOf store.discussions.nextId new.topic)) }
  | createIdea {new : NewIdea} (hhome : ∃ row, store.discussions.get? new.discussion = some row)
      (hfirst : new.kind = .root → ∀ id row, store.ideas.get? id = some row →
        row.discussion = new.discussion → row.kind = .legible .root → row.isLive = false) :
      Effect now store (.createIdea new) ⟨store.ideas.nextId, [.created store.ideas.nextId], []⟩
        { store with ideas := store.ideas.push (.ofNew now new) }
  | updateIdea {idea : Id} {patch : IdeaPatch} {row : IdeaRow} {version : Nat}
      (hrow : store.ideas.get? idea = some row) (hlive : row.isLive)
      (hversion : row.version.next.read 0 = .ok version) :
      Effect now store (.updateIdea idea patch) ⟨version, [.modified idea version], []⟩
        { store with ideas := store.ideas.update idea fun row => (row.patched patch).bumped now }
  | tombstoneAgain {idea : Id} {row : IdeaRow} (hrow : store.ideas.get? idea = some row)
      (hdead : row.isLive = false) :
      Effect now store (.tombstoneIdea idea) (ofCascade idea none) store
  | tombstoneIdea {idea : Id} {row : IdeaRow} {links : Nat} {versions : List (Id × Nat)}
      (hrow : store.ideas.get? idea = some row) (hkind : row.kind ≠ .legible .root)
      (hlive : row.isLive) (hfree : idea ∉ store.guarded)
      (hparents : versions.map (·.1) = store.linkedParents idea)
      (htold : TellsNext store.ideas versions) :
      Effect now store (.tombstoneIdea idea) (ofCascade idea (some ⟨idea, links, versions⟩))
        (((store.removeLinksOf now idea).bury now idea).touchAll now (store.linkedParents idea))
  | moveIdea {idea parent : Id} {order : Place} {version : Nat} {versions : List (Id × Nat)}
      (horder : order.nonFinite? = none) (hother : parent ≠ idea)
      (hlinkable : store.Linkable parent idea)
      (hkind : ∃ row, store.ideas.get? idea = some row ∧ row.kind ≠ .legible .root)
      (hformer : versions.map (·.1) = store.formerParents idea parent)
      (htold : TellsNext store.ideas (versions ++ [(parent, version)])) :
      Effect now store (.moveIdea idea parent order)
        ⟨store.links.nextId, modified versions ++ [.modified parent version], []⟩
        ((((store.removeLinks now ((store.inbound idea).map (·.1))).touchAll now
          (store.formerParents idea parent)).pushLink
            (.ofNew now { source := parent, target := idea, order })).touch now parent)
  | createLink {new : NewLink} {row : IdeaRow} {version : Nat}
      (horder : new.order.nonFinite? = none) (hlinkable : store.Linkable new.source new.target)
      (hrow : store.ideas.get? new.source = some row)
      (hversion : row.version.next.read 0 = .ok version) :
      Effect now store (.createLink new) ⟨store.links.nextId, [.modified new.source version], []⟩
        ((store.pushLink (.ofNew now new)).touch now new.source)
  | tombstoneLink {link : Id} {linkRow : LinkRow} {row : IdeaRow} {version : Nat}
      (hlink : store.links.get? link = some linkRow) (hlinkLive : linkRow.isLive)
      (hrow : store.ideas.get? linkRow.source = some row)
      (hversion : row.version.next.read 0 = .ok version) :
      Effect now store (.tombstoneLink link) ⟨(), [.modified linkRow.source version], []⟩
        ((store.removeLink now link).touch now linkRow.source)
  | reorderLink {link : Id} {order : Place} {linkRow : LinkRow} {row : IdeaRow} {version : Nat}
      (horder : order.nonFinite? = none) (hlink : store.links.get? link = some linkRow)
      (hlinkLive : linkRow.isLive) (hrow : store.ideas.get? linkRow.source = some row)
      (hversion : row.version.next.read 0 = .ok version) :
      Effect now store (.reorderLink link order)
        ⟨store.links.nextId, [.modified linkRow.source version], []⟩
        (((store.removeLink now link).pushLink
          (.ofNew now ⟨linkRow.source, linkRow.target, order, linkRow.type⟩)).touch now
            linkRow.source)
  | createPost {new : NewPost} {path : String}
      (hhome : ∃ row, store.discussions.get? new.discussion = some row)
      (hfits : store.posts.size < Table.capacity)
      (hpath : (new.parent = none ∧ path = "") ∨
        ∃ parent above, new.parent = some parent ∧ store.posts.get? parent = some above ∧
          above.discussion = new.discussion ∧ path = Ancestry.child above.ancestry parent) :
      Effect now store (.createPost new) ⟨store.posts.nextId, [], []⟩
        { store with posts := store.posts.push (.ofNew now new path) }
  | linkContent {new : NewContentLink} {post : PostRow}
      (hpost : store.posts.get? new.post = some post)
      (hextract : new.important → new.kind = .extract)
      (hidea : ∀ idea, new.idea = some idea → ∃ row, store.ideas.get? idea = some row ∧ row.isLive ∧
        row.discussion = post.discussion) :
      Effect now store (.linkContent new) ⟨store.contents.nextId, [], []⟩
        { store with
          contents := store.contents.push
            ⟨new.idea, new.post, new.kind, new.important, new.creator, now⟩ }
  | recordAction {new : NewAction} {post : PostRow}
      (hpost : store.posts.get? new.post = some post) :
      Effect now store (.recordAction new) ⟨store.actions.nextId, [], []⟩
        { store with actions := store.actions.push ⟨new.kind, new.actor, new.post, now, none⟩ }
  | retractAction {action : Id} {row : ActionRow} (hrow : store.actions.get? action = some row)
      (hlive : row.isLive) :
      Effect now store (.retractAction action) ⟨(), [], []⟩
        { store with actions := store.actions.update action (ActionRow.retracted now) }

variable {now : Timestamp} {request : Request} {store after : Store}
  {receipt : Receipt request.Reply}

/-- A request that succeeds has one of these effects. -/
theorem effect_of_perform (h : request.perform now store = (.ok receipt, after)) :
    Effect now store request receipt after := by
  cases request with
  | createDiscussion new =>
    obtain ⟨ids, _, hwrite, hreply⟩ := Attempt.bind_eq_ok_iff.mp h
    obtain ⟨rfl, rfl⟩ := Attempt.pure_eq_ok_iff.mp hreply
    obtain ⟨hslug, hfirst, rfl, rfl⟩ := createDiscussion_effect hwrite
    exact .createDiscussion hslug hfirst
  | createIdea new =>
    obtain ⟨id, hwrite, rfl⟩ := Attempt.bind_pure_eq_ok_iff.mp h
    obtain ⟨hhome, hfirst, rfl, rfl⟩ := insertIdea_effect hwrite
    exact .createIdea hhome hfirst
  | updateIdea idea patch =>
    obtain ⟨version, hwrite, rfl⟩ := Attempt.bind_pure_eq_ok_iff.mp h
    obtain ⟨row, hrow, hlive, hversion, rfl⟩ := updateIdea_effect hwrite
    exact .updateIdea hrow hlive hversion
  | tombstoneIdea idea =>
    obtain ⟨result, hwrite, rfl⟩ := Attempt.bind_pure_eq_ok_iff.mp h
    obtain ⟨row, hrow, hkind, ⟨hdead, rfl, rfl⟩ |
      ⟨hlive, ⟨_, links, versions⟩, rfl, hfree, rfl, hparents, htold, rfl⟩⟩ :=
      tombstoneIdea_effect hwrite
    · exact .tombstoneAgain hrow hdead
    · exact .tombstoneIdea hrow hkind hlive hfree hparents htold
  | moveIdea idea parent order =>
    obtain ⟨move, hwrite, rfl⟩ := Attempt.bind_pure_eq_ok_iff.mp h
    obtain ⟨horder, hother, hlinkable, hkind, ⟨version, versions, hformer, htold, rfl⟩, rfl⟩ :=
      moveIdea_effect hwrite
    exact .moveIdea horder hother hlinkable hkind hformer htold
  | createLink new =>
    obtain ⟨edit, hwrite, rfl⟩ := Attempt.bind_pure_eq_ok_iff.mp h
    obtain ⟨horder, hlinkable, row, version, hrow, hversion, rfl, rfl⟩ := createLink_effect hwrite
    exact .createLink horder hlinkable hrow hversion
  | tombstoneLink link =>
    obtain ⟨edit, hwrite, rfl⟩ := Attempt.bind_pure_eq_ok_iff.mp h
    obtain ⟨linkRow, row, version, hlink, hlinkLive, hrow, hversion, rfl, rfl⟩ :=
      tombstoneLink_effect hwrite
    exact .tombstoneLink hlink hlinkLive hrow hversion
  | reorderLink link order =>
    obtain ⟨edit, hwrite, rfl⟩ := Attempt.bind_pure_eq_ok_iff.mp h
    obtain ⟨horder, linkRow, row, version, hlink, hlinkLive, hrow, hversion, rfl, rfl⟩ :=
      reorderLink_effect hwrite
    exact .reorderLink horder hlink hlinkLive hrow hversion
  | createPost new =>
    obtain ⟨post, hwrite, rfl⟩ := Attempt.bind_pure_eq_ok_iff.mp h
    obtain ⟨hhome, hfits, rfl, path, hpath, rfl⟩ := createPost_effect hwrite
    exact .createPost hhome hfits hpath
  | linkContent new =>
    obtain ⟨content, hwrite, rfl⟩ := Attempt.bind_pure_eq_ok_iff.mp h
    obtain ⟨⟨post, hpost, hextract, hidea⟩, rfl, rfl⟩ := linkContent_effect hwrite
    exact .linkContent hpost hextract hidea
  | recordAction new =>
    obtain ⟨action, hwrite, rfl⟩ := Attempt.bind_pure_eq_ok_iff.mp h
    obtain ⟨⟨post, hpost⟩, rfl, rfl⟩ := recordAction_effect hwrite
    exact .recordAction hpost
  | retractAction action =>
    obtain ⟨_, hwrite, rfl⟩ := Attempt.bind_pure_eq_ok_iff.mp h
    obtain ⟨⟨row, hrow, hlive⟩, rfl⟩ := retractAction_effect hwrite
    exact .retractAction hrow hlive

end Deliberation.Request
