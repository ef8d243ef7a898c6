import Deliberation.Proofs.Session.History
import Deliberation.Proofs.Store.Record

/-!
Deeds: the requests of a history that were carried out, with their answers. What they created, and
how ideas were changed since, is told from the deeds alone, without a look at the store.
-/

namespace Deliberation

open Store (Creation)

structure Deed where
  now : Timestamp
  request : Request
  reply : request.Reply

namespace Deed

def discussion? : Deed → Option (Creation NewDiscussion)
  | ⟨now, .createDiscussion new, reply⟩ => some ⟨reply.1, now, new⟩
  | _ => none

/-- The idea that a deed has created. The root idea of a discussion has its topic for a title. -/
def idea? : Deed → Option (Creation NewIdea)
  | ⟨now, .createDiscussion new, reply⟩ => some ⟨reply.2, now, Store.rootOf reply.1 new.topic⟩
  | ⟨now, .createIdea new, reply⟩ => some ⟨reply, now, new⟩
  | _ => none

/-- The patch that a deed has put on an idea. -/
def patch? (idea : Id) : Deed → Option IdeaPatch
  | ⟨_, .updateIdea patched patch, _⟩ => if patched = idea then some patch else none
  | _ => none

/-- The link that a deed has created, given those created before. A link in another place is a new
link with the ends and the type of the old one. -/
def link? (known : List (Creation NewLink)) : Deed → Option (Creation NewLink)
  | ⟨now, .createLink new, reply⟩ => some ⟨reply, now, new⟩
  | ⟨now, .moveIdea idea parent order, reply⟩ =>
    some ⟨reply, now, { source := parent, target := idea, order }⟩
  | ⟨now, .reorderLink link order, reply⟩ =>
    (known.find? fun creation => creation.id = link).map fun old =>
      ⟨reply, now, { old.new with order }⟩
  | _ => none

def post? : Deed → Option (Creation NewPost)
  | ⟨now, .createPost new, reply⟩ => some ⟨reply, now, new⟩
  | _ => none

/-- The tie of a post that a deed has created. -/
def content? : Deed → Option (Creation NewContentLink)
  | ⟨now, .linkContent new, reply⟩ => some ⟨reply, now, new⟩
  | _ => none

def action? : Deed → Option (Creation NewAction)
  | ⟨now, .recordAction new, reply⟩ => some ⟨reply, now, new⟩
  | _ => none

variable (deeds : List Deed)

def discussions : List (Creation NewDiscussion) := deeds.filterMap discussion?

/-- An idea with all the patches that were put on it, one after another. -/
def patchedIdea (creation : Creation NewIdea) : Creation NewIdea :=
  { creation with new := (deeds.filterMap (patch? creation.id)).foldl NewIdea.patched creation.new }

/-- The ideas that were created, as the patches have left them. -/
def ideas : List (Creation NewIdea) := (deeds.filterMap idea?).map (patchedIdea deeds)

def links : List (Creation NewLink) :=
  deeds.foldl (fun known deed => known ++ (deed.link? known).toList) []

def posts : List (Creation NewPost) := deeds.filterMap post?

def contents : List (Creation NewContentLink) := deeds.filterMap content?

def actions : List (Creation NewAction) := deeds.filterMap action?

variable {deeds} {deed : Deed}

theorem links_append :
    links (deeds ++ [deed]) = links deeds ++ (deed.link? (links deeds)).toList := by
  rw [links, List.foldl_append, List.foldl_cons, List.foldl_nil, links]

/-- What a deed makes of an idea that was there before. -/
def amend (deed : Deed) (creation : Creation NewIdea) : Creation NewIdea :=
  match deed.patch? creation.id with
  | some patch => { creation with new := creation.new.patched patch }
  | none => creation

@[simp]
theorem amend_id (creation : Creation NewIdea) : (deed.amend creation).id = creation.id := by
  unfold amend
  split <;> rfl

theorem amend_of_none (hpatch : ∀ idea, deed.patch? idea = none) (creation : Creation NewIdea) :
    deed.amend creation = creation := by
  rw [amend, hpatch]

/-- A further deed amends what the deeds before it have made of an idea. -/
theorem patchedIdea_append (creation : Creation NewIdea) :
    patchedIdea (deeds ++ [deed]) creation = deed.amend (patchedIdea deeds creation) := by
  have hid : (patchedIdea deeds creation).id = creation.id := rfl
  unfold amend
  rw [hid, patchedIdea, List.filterMap_append, List.foldl_append]
  cases hpatch : deed.patch? creation.id with
  | none => simp [hpatch, patchedIdea]
  | some patch => simp [hpatch, patchedIdea]

theorem ideas_append_of_none (hnone : deed.idea? = none) :
    ideas (deeds ++ [deed]) = (ideas deeds).map deed.amend := by
  rw [ideas, ideas, List.filterMap_append, List.filterMap_cons_none hnone, List.filterMap_nil,
    List.append_nil, List.map_map]
  exact List.map_congr_left fun creation _ => patchedIdea_append creation

/-- A deed that neither creates an idea nor patches one leaves what the ideas say. -/
theorem ideas_append_of_quiet (hnone : deed.idea? = none)
    (hpatch : ∀ idea, deed.patch? idea = none) : ideas (deeds ++ [deed]) = ideas deeds := by
  rw [ideas_append_of_none hnone,
    List.map_congr_left fun creation _ => amend_of_none hpatch creation, List.map_id']

/-- A deed that creates an idea adds it as it is: nothing has been changed about it yet. -/
theorem ideas_append_of_some {creation : Creation NewIdea} (hsome : deed.idea? = some creation)
    (hpatch : ∀ idea, deed.patch? idea = none)
    (hfresh : deeds.filterMap (patch? creation.id) = []) :
    ideas (deeds ++ [deed]) = ideas deeds ++ [creation] := by
  have hnew : patchedIdea deeds creation = creation := by
    rw [patchedIdea, hfresh, List.foldl_nil]
  have hsame : patchedIdea (deeds ++ [deed]) = patchedIdea deeds := by
    funext other
    rw [patchedIdea_append, amend_of_none hpatch]
  rw [ideas, hsame, List.filterMap_append, List.filterMap_cons_some hsome, List.filterMap_nil,
    List.map_append, List.map_cons, List.map_nil, hnew, ideas]

end Deed

namespace Session

/-- The requests of a history that are carried out, oldest first. -/
def deeds : History → Session → List Deed
  | [], _ => []
  | (now, request) :: rest, session =>
    match perform now request session with
    | (.ok reply, after) => ⟨now, request, reply⟩ :: deeds rest after
    | (.error _, after) => deeds rest after

/-- What holds of the deeds so far and of the store, and is kept by every successful request
together with its answer, holds after any history. -/
theorem carryOut_deeds {P : List Deed → Store → Prop}
    (hkeeps : ∀ {now} {request : Request} {store after receipt past},
      request.Effect now store receipt after → P past store →
        P (past ++ [⟨now, request, receipt.reply⟩]) after)
    (history : History) {session : Session} {past : List Deed} (h : P past session.store) :
    P (past ++ deeds history session) (carryOut history session).store := by
  induction history generalizing session past with
  | nil =>
    rw [deeds, List.append_nil]
    exact h
  | cons entry rest ih =>
    obtain ⟨now, request⟩ := entry
    have hcases := perform_cases now request session
    rw [deeds, carryOut]
    generalize perform now request session = result at hcases ⊢
    obtain ⟨answer, after⟩ := result
    rcases hcases with ⟨receipt, hanswer, heffect⟩ | ⟨e, hanswer, hsame⟩
    · obtain rfl : answer = .ok receipt.reply := hanswer
      have hrest := ih (hkeeps heffect h)
      rw [List.append_assoc] at hrest
      exact hrest
    · obtain rfl : answer = .error e := hanswer
      exact ih (hsame ▸ h)

end Session

end Deliberation
