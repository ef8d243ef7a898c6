import Deliberation.Proofs.Session.Consistency

/-!
What a request does to a single idea. Its row is left as it is and nothing is reported about it; or
it is created, modified or deleted once, and this one change is reported. All six requests that
raise versions are brought down to this, so that what follows about versions and reports need not
look into them again.
-/

namespace Deliberation

/-- Those of some changes that are about an idea. -/
def Change.about (idea : Id) (changes : List Change) : List Change :=
  changes.filter fun change => change.idea = idea

namespace Change

variable {idea : Id}

@[simp]
theorem about_nil : about idea [] = [] := rfl

theorem about_cons (change : Change) (rest : List Change) : about idea (change :: rest) =
    if change.idea = idea then change :: about idea rest else about idea rest := by
  simp [about, List.filter_cons]

theorem mem_about_iff {change : Change} {changes : List Change} :
    change ∈ about idea changes ↔ change ∈ changes ∧ change.idea = idea := by
  simp [about]

theorem about_append (changes others : List Change) :
    about idea (changes ++ others) = about idea changes ++ about idea others :=
  List.filter_append ..

theorem about_modified_of_notMem {versions : List (Id × Nat)} (h : idea ∉ versions.map (·.1)) :
    about idea (Request.modified versions) = [] := by
  refine List.filter_eq_nil_iff.mpr fun change hchange habout => ?_
  obtain ⟨entry, hentry, rfl⟩ := List.mem_map.mp hchange
  exact h (List.mem_map.mpr ⟨entry, hentry, of_decide_eq_true habout⟩)

/-- One of several distinct ideas is told one version. -/
theorem about_modified_of_mem {versions : List (Id × Nat)} {version : Nat}
    (hdistinct : (versions.map (·.1)).Nodup) (h : (idea, version) ∈ versions) :
    about idea (Request.modified versions) = [.modified idea version] := by
  induction versions with
  | nil => cases h
  | cons entry rest ih =>
    obtain ⟨hfirst, hrest⟩ := List.nodup_cons.mp hdistinct
    have hcons : Request.modified (entry :: rest) =
        .modified entry.1 entry.2 :: Request.modified rest := rfl
    rw [hcons, about_cons, Change.idea]
    rcases List.mem_cons.mp h with rfl | hmem
    · rw [if_pos rfl, about_modified_of_notMem hfirst]
    · have hother : entry.1 ≠ idea := by
        intro hsame
        exact hfirst (List.mem_map.mpr ⟨(idea, version), hmem, hsame.symm⟩)
      rw [if_neg hother, ih hrest hmem]

end Change

open Store

/-- A change of the rows of ideas that counts one modification, and neither deletes nor brings
back. -/
def CountsOne (change : IdeaRow → IdeaRow) : Prop :=
  ∀ row, (change row).version = row.version.next ∧ (change row).isLive = row.isLive

theorem countsOne_bumped (now : Timestamp) : CountsOne (IdeaRow.bumped now) := fun _ => ⟨rfl, rfl⟩

theorem countsOne_patched (now : Timestamp) (patch : IdeaPatch) :
    CountsOne fun row => (row.patched patch).bumped now := fun _ => ⟨rfl, rfl⟩

inductive Turn (idea : Id) : Option IdeaRow → List Change → Option IdeaRow → Prop where
  | kept {row : Option IdeaRow} : Turn idea row [] row
  | created {row : IdeaRow} : row.isLive → row.version = .whole 1 →
      Turn idea none [.created idea] (some row)
  | modified {old new : IdeaRow} {version : Nat} : old.isLive → new.isLive →
      new.version = old.version.next → new.version.read 0 = .ok version →
      Turn idea (some old) [.modified idea version] (some new)
  | deleted {old new : IdeaRow} : old.isLive → new.isLive = false → new.version = old.version.next →
      Turn idea (some old) [.deleted idea] (some new)

namespace Turn

theorem eq_of_silent {idea : Id} {before after : Option IdeaRow} (h : Turn idea before [] after) :
    after = before := by
  cases h
  rfl

variable {ideas : Table IdeaRow}

/-- A new idea is created with version one, and no other idea is told of. -/
theorem push {row : IdeaRow} (hlive : row.isLive) (hversion : row.version = .whole 1) (idea : Id) :
    Turn idea (ideas.get? idea) (Change.about idea [.created ideas.nextId])
      ((ideas.push row).get? idea) := by
  rw [Table.get?_push]
  split
  · rename_i hnew
    subst hnew
    rw [Table.get?_nextId, Change.about_cons, Change.idea, if_pos rfl]
    exact created hlive hversion
  · rename_i hother
    rw [Change.about_cons, Change.idea, if_neg (Ne.symm hother)]
    exact kept

/-- Distinct live ideas that are told the versions after their own are modified once, and no others
are. -/
theorem updateAll {change : IdeaRow → IdeaRow} {versions : List (Id × Nat)}
    (hchange : CountsOne change) (hdistinct : (versions.map (·.1)).Nodup)
    (htold : TellsNext ideas versions)
    (hlive : ∀ source ∈ versions.map (·.1), ∃ row, ideas.get? source = some row ∧ row.isLive)
    (idea : Id) : Turn idea (ideas.get? idea) (Change.about idea (Request.modified versions))
      ((ideas.updateAll (versions.map (·.1)) change).get? idea) := by
  by_cases hmem : idea ∈ versions.map (·.1)
  · obtain ⟨⟨_, version⟩, hentry, rfl⟩ := List.mem_map.mp hmem
    obtain ⟨row, hrow, hversion⟩ := htold _ hentry
    obtain ⟨again, hagain, hrowLive⟩ := hlive _ hmem
    obtain rfl : row = again := Option.some.inj (hrow.symm.trans hagain)
    obtain ⟨hnext, hsame⟩ := hchange row
    rw [Change.about_modified_of_mem hdistinct hentry, Table.get?_updateAll_of_mem hdistinct hmem,
      hrow]
    exact modified hrowLive (hsame.trans hrowLive) hnext (hnext ▸ hversion)
  · rw [Change.about_modified_of_notMem hmem, Table.get?_updateAll_of_notMem hmem]
    exact kept

/-- A single live idea is modified. -/
theorem update {change : IdeaRow → IdeaRow} {source : Id} {row : IdeaRow} {version : Nat}
    (hchange : CountsOne change) (hrow : ideas.get? source = some row) (hlive : row.isLive)
    (hversion : row.version.next.read 0 = .ok version) (idea : Id) :
    Turn idea (ideas.get? idea) (Change.about idea [.modified source version])
      ((ideas.update source change).get? idea) := by
  have htold : TellsNext ideas [(source, version)] := by
    intro entry hentry
    obtain rfl := List.mem_singleton.mp hentry
    exact ⟨row, hrow, hversion⟩
  have hdistinct : ([(source, version)].map (·.1)).Nodup := List.nodup_singleton source
  refine updateAll hchange hdistinct htold ?_ idea
  intro other hother
  obtain rfl := List.mem_singleton.mp hother
  exact ⟨row, hrow, hlive⟩

variable {now : Timestamp} {store : Store}

/-- Deleting an idea and counting a modification for each of its former parents. -/
theorem bury {idea : Id} {row : IdeaRow} {versions : List (Id × Nat)}
    (hrow : store.ideas.get? idea = some row) (hlive : row.isLive)
    (hdistinct : (versions.map (·.1)).Nodup) (htold : TellsNext store.ideas versions)
    (hparents : ∀ source ∈ versions.map (·.1), source ≠ idea ∧
      ∃ parent, store.ideas.get? source = some parent ∧ parent.isLive) (other : Id) :
    Turn other (store.ideas.get? other)
      (Change.about other (.deleted idea :: Request.modified versions))
      (((store.bury now idea).touchAll now (versions.map (·.1))).ideas.get? other) := by
  have hburied : ∀ id, id ≠ idea → (store.bury now idea).ideas.get? id = store.ideas.get? id := by
    intro id hne
    rw [Store.bury, Table.get?_update, if_neg hne]
  by_cases hsame : other = idea
  · subst hsame
    have hnone : other ∉ versions.map (·.1) := fun hmem => (hparents other hmem).1 rfl
    rw [Change.about_cons, Change.idea, if_pos rfl, Change.about_modified_of_notMem hnone, touchAll,
      Table.get?_updateAll_of_notMem hnone, Store.bury, Table.get?_update, if_pos rfl, hrow]
    exact deleted hlive rfl rfl
  · rw [Change.about_cons, Change.idea, if_neg (Ne.symm hsame), ← hburied other hsame]
    refine updateAll (countsOne_bumped now) hdistinct ?_ ?_ other
    · refine htold.congr fun entry hentry => hburied _ ?_
      exact (hparents _ (List.mem_map_of_mem hentry)).1
    · intro source hmem
      obtain ⟨hne, parent, hparent, hparentLive⟩ := hparents source hmem
      exact ⟨parent, (hburied source hne).trans hparent, hparentLive⟩

end Turn

/-- A request that succeeds makes one turn of each idea. -/
theorem Request.Effect.turn {now : Timestamp} {request : Request} {store after : Store}
    {receipt : Receipt request.Reply} (heffect : request.Effect now store receipt after)
    (h : store.Sound) (idea : Id) :
    Turn idea (store.ideas.get? idea) (Change.about idea receipt.changes)
      (after.ideas.get? idea) := by
  cases heffect with
  | createDiscussion | createIdea => exact Turn.push rfl rfl idea
  | @updateIdea _ patch _ _ hrow hlive hversion =>
    exact Turn.update (countsOne_patched now patch) hrow hlive hversion idea
  | @tombstoneIdea gone _ _ versions hrow _ hlive _ hparents htold =>
    rw [← hparents]
    have hdistinct : (versions.map (·.1)).Nodup := by
      rw [hparents]
      exact linkedParents_nodup store gone
    refine @Turn.bury now (store.removeLinksOf now gone) _ _ _ hrow hlive hdistinct htold ?_ idea
    intro source hmem
    rw [hparents] at hmem
    obtain ⟨⟨link, linkRow, hinbound, rfl⟩, hne⟩ := mem_linkedParents_iff.mp hmem
    exact ⟨hne, h.isLive_of_inbound hinbound⟩
  | @moveIdea moved parent _ version versions _ _ hlinkable _ hformer htold =>
    have hall : (versions ++ [(parent, version)]).map (·.1) =
        store.formerParents moved parent ++ [parent] := by
      rw [List.map_append, hformer]
      rfl
    have hdistinct : (store.formerParents moved parent ++ [parent]).Nodup := by
      refine (formerParents_nodup store moved parent).append (List.nodup_singleton parent) ?_
      rw [List.disjoint_singleton]
      exact parent_notMem_formerParents
    have hlive : ∀ source ∈ store.formerParents moved parent ++ [parent],
        ∃ row, store.ideas.get? source = some row ∧ row.isLive := by
      intro source hsource
      rcases List.mem_append.mp hsource with hmem | hlast
      · obtain ⟨⟨link, linkRow, hinbound, rfl⟩, -⟩ := mem_formerParents_iff.mp hmem
        exact h.isLive_of_inbound hinbound
      · obtain rfl := List.mem_singleton.mp hlast
        obtain ⟨row, -, hrow, -, hrowLive, -⟩ := hlinkable
        exact ⟨row, hrow, hrowLive⟩
    rw [← hall] at hdistinct hlive
    have hturn := Turn.updateAll (countsOne_bumped now) hdistinct htold hlive idea
    rw [hall, Table.updateAll, List.foldl_append] at hturn
    have hreport : Request.modified (versions ++ [(parent, version)]) =
        Request.modified versions ++ [.modified parent version] := List.map_append
    rw [hreport] at hturn
    exact hturn
  | createLink _ hlinkable hrow hversion =>
    obtain ⟨parent, -, hparent, -, hlive, -⟩ := hlinkable
    obtain rfl := Option.some.inj (hparent.symm.trans hrow)
    exact Turn.update (countsOne_bumped now) hrow hlive hversion idea
  | tombstoneLink hlink hlinkLive hrow hversion | reorderLink _ hlink hlinkLive hrow hversion =>
    obtain ⟨parent, hparent, hlive⟩ := h.isLive_source hlink hlinkLive
    obtain rfl := Option.some.inj (hparent.symm.trans hrow)
    exact Turn.update (countsOne_bumped now) hrow hlive hversion idea
  | tombstoneAgain | createPost | linkContent | recordAction | retractAction => exact Turn.kept

end Deliberation
