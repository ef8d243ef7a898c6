import Deliberation.Proofs.Store.Read

/-!
What the single steps of a write leave behind when they succeed. The effect of each step is told as
a plain function on stores, so that the effect of a write is a composition of such functions.
-/

namespace Deliberation.Store

variable {now : Timestamp} {store after : Store} {id : Id}

/-- The store with one more modification of an idea counted. -/
def touch (now : Timestamp) (store : Store) (idea : Id) : Store :=
  { store with ideas := store.ideas.update idea (IdeaRow.bumped now) }

/-- The store with one more modification of each of some ideas counted. -/
def touchAll (now : Timestamp) (ideas : List Id) (store : Store) : Store :=
  { store with ideas := store.ideas.updateAll ideas (IdeaRow.bumped now) }

def removeLinks (now : Timestamp) (links : List Id) (store : Store) : Store :=
  { store with links := store.links.updateAll links (LinkRow.removed now) }

theorem foldl_removeLink (links : List Id) :
    links.foldl (removeLink now) store = store.removeLinks now links := by
  induction links generalizing store with
  | nil => rfl
  | cons link rest ih => exact ih

theorem during_eq_ok_iff {α : Type} {action : String} {x : Except DatabaseFault α} {a : α} :
    during action x = .ok a ↔ x = .ok a := by
  cases x with
  | ok b => simp [during]
  | error fault => simp [during]

/-- A row is added if the table is not full, and it gets the next number. -/
theorem addRow_eq_ok_iff {ρ : Type} {action : String} {table : Store → Table ρ}
    {place : Table ρ → Store → Store} {row : ρ} :
    addRow action table place row store = (.ok id, after) ↔
      (table store).size < Table.capacity ∧ (table store).nextId = id ∧
        place ((table store).push row) store = after := by
  unfold addRow
  cases hinsert : (table store).insert row with
  | ok grown =>
    obtain ⟨number, grown⟩ := grown
    obtain ⟨hfits, rfl, rfl⟩ := Table.insert_eq_ok_iff.mp hinsert
    simp only [hfits, true_and, Prod.mk.injEq, Except.ok.injEq]
  | error fault =>
    have hfull : ¬ (table store).size < Table.capacity := by
      intro hfits
      rw [Table.insert_eq_ok_iff.mpr ⟨hfits, rfl, rfl⟩] at hinsert
      cases hinsert
    simp only [hfull, false_and, during, Prod.mk.injEq, reduceCtorEq]

theorem addDiscussion_eq_ok_iff {row : DiscussionRow} :
    addDiscussion row store = (.ok id, after) ↔
      (∀ known ∈ store.discussions.rows, known.slug ≠ row.slug) ∧
      store.discussions.size < Table.capacity ∧ store.discussions.nextId = id ∧
      { store with discussions := store.discussions.push row } = after := by
  unfold addDiscussion
  by_cases hknown : ∃ known ∈ store.discussions.rows, known.slug = row.slug
  · have hany : (store.discussions.rows.any fun known => known.slug == row.slug) = true := by
      simpa using hknown
    have hclash : ¬ ∀ known ∈ store.discussions.rows, known.slug ≠ row.slug := by
      simpa using hknown
    simp [hany, hclash, during]
  · have hany : (store.discussions.rows.any fun known => known.slug == row.slug) = false := by
      simpa using hknown
    have hnew : ∀ known ∈ store.discussions.rows, known.slug ≠ row.slug := by
      simpa using hknown
    simp only [hany, Bool.false_eq_true, if_false, addRow_eq_ok_iff]
    exact ⟨fun h => ⟨hnew, h⟩, fun h => h.2⟩

/-- A row is changed if it is there and its version afterwards can be told. -/
theorem changeIdea_eq_ok_iff {action : String} {change : IdeaRow → IdeaRow} {version : Nat} :
    changeIdea action id change store = (.ok version, after) ↔
      ∃ row, store.ideas.get? id = some row ∧ (change row).version.read 0 = .ok version ∧
        { store with ideas := store.ideas.update id change } = after := by
  unfold changeIdea
  simp only [Table.get?_update, if_true]
  cases hrow : store.ideas.get? id with
  | none => simp [during]
  | some row => simp [during_eq_ok_iff]

theorem bump_eq_ok_iff {version : Nat} :
    bump now id store = (.ok version, after) ↔
      ∃ row, store.ideas.get? id = some row ∧ row.version.next.read 0 = .ok version ∧
        store.touch now id = after :=
  changeIdea_eq_ok_iff

/-- Counting modifications one idea after another tells a version for each of them. -/
theorem bumpAll_eq_ok {ids : List Id} {versions : List (Id × Nat)}
    (h : bumpAll now ids store = (.ok versions, after)) :
    store.touchAll now ids = after ∧ versions.map (·.1) = ids := by
  induction ids generalizing store versions with
  | nil =>
    obtain ⟨rfl, rfl⟩ := Attempt.pure_eq_ok_iff.mp h
    exact ⟨rfl, rfl⟩
  | cons idea rest ih =>
    simp only [bumpAll, Attempt.bind_eq_ok_iff, Attempt.pure_eq_ok_iff] at h
    obtain ⟨version, touched, hbump, later, final, hrest, rfl, rfl⟩ := h
    obtain ⟨row, -, -, rfl⟩ := bump_eq_ok_iff.mp hbump
    obtain ⟨rfl, hids⟩ := ih hrest
    exact ⟨rfl, by rw [List.map_cons, hids]⟩

/-- Some ideas are told the versions that follow those which they have. -/
def TellsNext (ideas : Table IdeaRow) (versions : List (Id × Nat)) : Prop :=
  ∀ entry ∈ versions, ∃ row, ideas.get? entry.1 = some row ∧ row.version.next.read 0 = .ok entry.2

/-- Only the rows of the ideas that are told count. -/
theorem TellsNext.congr {ideas others : Table IdeaRow} {versions : List (Id × Nat)}
    (h : TellsNext ideas versions)
    (hsame : ∀ entry ∈ versions, others.get? entry.1 = ideas.get? entry.1) :
    TellsNext others versions := by
  intro entry hentry
  rw [hsame entry hentry]
  exact h entry hentry

/-- Among distinct ideas none is told a version that another modification has raised before. -/
theorem bumpAll_tellsNext {ids : List Id} {versions : List (Id × Nat)} (hdistinct : ids.Nodup)
    (h : bumpAll now ids store = (.ok versions, after)) : TellsNext store.ideas versions := by
  induction ids generalizing store versions with
  | nil =>
    obtain ⟨rfl, rfl⟩ := Attempt.pure_eq_ok_iff.mp h
    intro entry hentry
    cases hentry
  | cons idea rest ih =>
    simp only [bumpAll, Attempt.bind_eq_ok_iff, Attempt.pure_eq_ok_iff] at h
    obtain ⟨version, _, hbump, later, _, hrest, rfl, rfl⟩ := h
    obtain ⟨row, hrow, hversion, rfl⟩ := bump_eq_ok_iff.mp hbump
    obtain ⟨hfirst, hothers⟩ := List.nodup_cons.mp hdistinct
    have hlater : TellsNext store.ideas later := by
      refine (ih hothers hrest).congr fun entry hentry => ?_
      have hmem : entry.1 ∈ rest := by
        rw [← (bumpAll_eq_ok hrest).2]
        exact List.mem_map_of_mem hentry
      have hother : entry.1 ≠ idea := by
        rintro rfl
        exact hfirst hmem
      rw [touch, Table.get?_update, if_neg hother]
    intro entry hentry
    rcases List.mem_cons.mp hentry with rfl | hmem
    · exact ⟨row, hrow, hversion⟩
    · exact hlater entry hmem

end Deliberation.Store
