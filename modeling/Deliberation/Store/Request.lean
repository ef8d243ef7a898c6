import Deliberation.Journal
import Deliberation.Store.Write

/-!
Requests: the writes as values, with what each of them answers and reports. What is reported are the
changes of ideas, in the order in which watchers hear of them, and the journal of the write.
-/

namespace Deliberation

inductive Request where
  | createDiscussion (new : NewDiscussion)
  | createIdea (new : NewIdea)
  | updateIdea (idea : Id) (patch : IdeaPatch)
  | tombstoneIdea (idea : Id)
  | moveIdea (idea parent : Id) (order : Place)
  | createLink (new : NewLink)
  | tombstoneLink (link : Id)
  | reorderLink (link : Id) (order : Place)
  | createPost (new : NewPost)
  | linkContent (new : NewContentLink)
  | recordAction (new : NewAction)
  | retractAction (action : Id)

namespace Request

/-- What a request is answered with: the discussion and its root idea, the id of the new row, the
version of the changed idea, or nothing. -/
abbrev Reply : Request → Type
  | .createDiscussion _ => Id × Id
  | .updateIdea _ _ => Nat
  | .tombstoneIdea _ | .tombstoneLink _ | .retractAction _ => Unit
  | _ => Id

structure Receipt (α : Type) where
  reply : α
  changes : List Change := []
  entries : List Entry := []

def ofEdit {α : Type} (reply : α) (edit : Store.LinkEdit) : Receipt α :=
  ⟨reply, [.modified edit.source edit.version], []⟩

def modified (versions : List (Id × Nat)) : List Change :=
  versions.map fun (idea, version) => .modified idea version

def ofCascade (idea : Id) : Option Store.Cascade → Receipt Unit
  | none => ⟨(), [], [⟨[], .alreadyTombstoned idea⟩]⟩
  | some done =>
    ⟨(), .deleted done.idea :: modified done.parents,
      [⟨[.cascade idea], .cascadeCompleted idea done.links⟩]⟩

def perform (now : Timestamp) : (request : Request) → Attempt Store (Receipt request.Reply)
  | .createDiscussion new => do
    let (discussion, root) ← Store.createDiscussion now new
    return ⟨(discussion, root), [.created root], []⟩
  | .createIdea new => do
    let idea ← Store.createIdea now new
    return ⟨idea, [.created idea], []⟩
  | .updateIdea idea patch => do
    let version ← Store.updateIdea now idea patch
    return ⟨version, [.modified idea version], []⟩
  | .tombstoneIdea idea => do
    let done ← Store.tombstoneIdea now idea
    return ofCascade idea done
  | .moveIdea idea parent order => do
    let move ← Store.moveIdea now idea parent order
    return ⟨move.edit.link,
      modified move.formerParents ++ [.modified move.edit.source move.edit.version], []⟩
  | .createLink new => do
    let edit ← Store.createLink now new
    return ofEdit edit.link edit
  | .tombstoneLink link => do
    let edit ← Store.tombstoneLink now link
    return ofEdit () edit
  | .reorderLink link order => do
    let edit ← Store.reorderLink now link order
    return ofEdit edit.link edit
  | .createPost new => do
    let post ← Store.createPost now new
    return ⟨post, [], []⟩
  | .linkContent new => do
    let content ← Store.linkContent now new
    return ⟨content, [], []⟩
  | .recordAction new => do
    let action ← Store.recordAction now new
    return ⟨action, [], []⟩
  | .retractAction action => do
    Store.retractAction now action
    return ⟨(), [], []⟩

def failureEntries : Error → List Entry
  | .cascadeFailed idea reason => [⟨[.cascade idea], .cascadeFailed idea reason⟩]
  | _ => []

end Request

end Deliberation
