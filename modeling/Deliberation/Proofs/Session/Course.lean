import Deliberation.Proofs.Session.Notice
import Deliberation.Proofs.Session.Turn

/-!
The course of an idea, as a watcher sees it: it is created, modified version by version, and perhaps
deleted. A request makes one turn of each idea, and a turn goes on from the course so far. So no
version is left out, told twice or told late, whatever is asked of the database.
-/

namespace Deliberation

/-- The changes that lead an idea from its creation to a version. -/
def Change.courseTo (idea : Id) (version : Nat) : List Change :=
  .created idea :: (List.range' 2 (version - 1)).map (.modified idea)

theorem Change.courseTo_succ (idea : Id) {version : Nat} (h : 1 ≤ version) :
    courseTo idea (version + 1) = courseTo idea version ++ [.modified idea (version + 1)] := by
  obtain ⟨before, rfl⟩ : ∃ before, version = before + 1 := ⟨version - 1, by omega⟩
  have hlast : 2 + 1 * before = before + 1 + 1 := by omega
  simp only [courseTo, Nat.add_sub_cancel, List.range'_concat, List.map_append, List.map_cons,
    List.map_nil, List.cons_append, hlast]

open Store

/-- What has been told of an idea is the way from its creation to the row that it has. Deleting an
idea raises its version as well, but no one is told. -/
inductive HasCourse (idea : Id) : Option IdeaRow → List Change → Prop where
  | unborn : HasCourse idea none []
  | living {row : IdeaRow} {version : Nat} : row.isLive → row.version = .whole version →
      1 ≤ version → version < 4294967296 → HasCourse idea (some row) (Change.courseTo idea version)
  | gone {row : IdeaRow} {version : Nat} : row.isLive = false →
      row.version = .whole (version + 1 : Nat) → 1 ≤ version → version < 4294967296 →
      HasCourse idea (some row) (Change.courseTo idea version ++ [.deleted idea])

/-- A turn goes on from the course so far. -/
theorem HasCourse.turn {idea : Id} {before after : Option IdeaRow} {told more : List Change}
    (h : HasCourse idea before told) (hturn : Turn idea before more after) :
    HasCourse idea after (told ++ more) := by
  cases h with
  | unborn =>
    cases hturn with
    | kept => exact unborn
    | created hlive hversion => exact living hlive hversion (Nat.le_refl 1) (by decide)
  | @living row version hlive hversion hfirst hfits =>
    cases hturn with
    | kept =>
      rw [List.append_nil]
      exact living hlive hversion hfirst hfits
    | modified _ hstill hnext hread =>
      rw [hversion] at hnext
      obtain ⟨rfl, hroom⟩ := Version.read_next_whole hfits (hnext ▸ hread)
      rw [Version.next_whole hfits] at hnext
      rw [← Change.courseTo_succ idea hfirst]
      exact living hstill hnext (Nat.le_add_left 1 version) hroom
    | deleted _ hdead hnext =>
      rw [hversion, Version.next_whole hfits] at hnext
      exact gone hdead hnext hfirst hfits
  | gone hdead hversion hfirst hfits =>
    cases hturn with
    | kept =>
      rw [List.append_nil]
      exact gone hdead hversion hfirst hfits
    | modified hlive => exact absurd hlive (by simp [hdead])
    | deleted hlive => exact absurd hlive (by simp [hdead])

/-- A request makes one turn of each idea, also if it fails. -/
theorem Request.turn (now : Timestamp) (request : Request) {store : Store} (h : store.Sound)
    (idea : Id) :
    Turn idea (store.ideas.get? idea) (Change.about idea (request.reports now store))
      ((request.perform now store).2.ideas.get? idea) := by
  rcases hperform : request.perform now store with ⟨answer, after⟩
  cases answer with
  | ok receipt =>
    simp only [reports, hperform]
    exact (effect_of_perform hperform).turn h idea
  | error e =>
    obtain rfl : after = store := request.harmless_perform now hperform
    simp only [reports, hperform, Change.about_nil]
    exact Turn.kept

namespace Session

/-- A history goes on from the course so far. -/
theorem carryOut_hasCourse (history : History) {session : Session} {idea : Id} {told : List Change}
    (hsound : session.store.Sound) (h : HasCourse idea (session.store.ideas.get? idea) told) :
    HasCourse idea ((carryOut history session).store.ideas.get? idea)
      (told ++ Change.about idea (history.reports session.store)) := by
  induction history generalizing session told with
  | nil =>
    rw [History.reports, Change.about_nil, List.append_nil]
    exact h
  | cons entry rest ih =>
    obtain ⟨now, request⟩ := entry
    have hkept : (perform now request session).2.store.Sound :=
      perform_keeps Request.Effect.sound hsound
    have hcourse := h.turn (request.turn now hsound idea)
    rw [← store_perform now request session] at hcourse
    have hrest := ih hkept hcourse
    rw [store_perform, List.append_assoc, ← Change.about_append] at hrest
    exact hrest

/-- After any history, what was reported of an idea is the way to the row that it has. -/
theorem storeAfter_hasCourse (medium : Medium) (watcher : Watcher) (history : History) (idea : Id) :
    HasCourse idea ((storeAfter medium watcher history).ideas.get? idea)
      (Change.about idea (history.reports {})) := by
  have hnone : (start medium watcher).store.ideas.get? idea = none := Table.get?_empty
  have hunborn : HasCourse idea ((start medium watcher).store.ideas.get? idea) [] := by
    rw [hnone]
    exact .unborn
  exact carryOut_hasCourse history sound_empty hunborn

/-- The version of a live idea can be told. That of a deleted one is at most one too large. -/
theorem storeAfter_version {medium : Medium} {watcher : Watcher} {history : History} {idea : Id}
    {row : IdeaRow} (hrow : (storeAfter medium watcher history).ideas.get? idea = some row) :
    ∃ version : Nat, version < 4294967296 ∧ (row.isLive → row.version = .whole version) ∧
      (row.isLive = false → row.version = .whole (version + 1 : Nat)) := by
  have hcourse := storeAfter_hasCourse medium watcher history idea
  rw [hrow] at hcourse
  generalize Change.about idea (history.reports {}) = told at hcourse
  cases hcourse with
  | @living _ version hlive hversion _ hfits =>
    exact ⟨version, hfits, fun _ => hversion, fun hdead => by simp [hlive] at hdead⟩
  | @gone _ version hdead hversion _ hfits =>
    exact ⟨version, hfits, fun hlive => by simp [hdead] at hlive, fun _ => hversion⟩

/-- Whatever is asked of a new database, its watcher is told of each idea that it is created, then
every version from the second one on up to the last, once and in order, and at last perhaps that it
is deleted. The last version told is the one that is stored, or the one before it if the idea has
been deleted. -/
theorem watcher_follows_course (medium : Medium) {watcher : Watcher} (hwatched : watcher ≠ .nobody)
    (history : History) (idea : Id) :
    HasCourse idea ((carryOut history (start medium watcher)).store.ideas.get? idea)
      (Change.about idea (carryOut history (start medium watcher)).noticed) := by
  rw [noticed_carryOut history hwatched, noticed_start]
  exact storeAfter_hasCourse medium watcher history idea

/-- An idea gets a link to itself and loses it again, is moved under the parent that it has, cannot
be moved under itself, and is deleted. -/
def turbulent : History := [
  (⟨0, 0⟩, .createDiscussion { slug := "energy", topic := "Energy" }),
  (⟨1, 0⟩, .createIdea { discussion := 1 }),
  (⟨2, 0⟩, .createLink { source := 1, target := 2 }),
  (⟨3, 0⟩, .createLink { source := 2, target := 2 }),
  (⟨4, 0⟩, .tombstoneLink 2),
  (⟨5, 0⟩, .moveIdea 2 1 .zero),
  (⟨6, 0⟩, .moveIdea 2 2 .zero),
  (⟨7, 0⟩, .tombstoneIdea 2)]

theorem watcher_follows_turbulence :
    Change.about 2 (carryOut turbulent (start .memory .tracing)).noticed =
      [.created 2, .modified 2 2, .modified 2 3, .deleted 2] ∧
    HasCourse 2 ((carryOut turbulent (start .memory .tracing)).store.ideas.get? 2)
      (Change.about 2 (carryOut turbulent (start .memory .tracing)).noticed) :=
  ⟨by decide +kernel, watcher_follows_course .memory (by decide) turbulent 2⟩

end Session

end Deliberation
