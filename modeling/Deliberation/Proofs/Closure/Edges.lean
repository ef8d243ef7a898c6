import Deliberation.Closure.Edges
import Deliberation.Proofs.Id
import Mathlib.Logic.Relation

/-!
What the two ways of finding a closure find: the ends of the paths along edges, which have one edge
or more. Each way keeps two things. It finds nothing but ends of paths; and an edge that leaves a
start or something found has its end among what is found, unless it is still to be looked at.
-/

namespace Deliberation.Closure

variable {edges : List (Id × Id)} {near far root : Id}

/-- There is a path of one edge or more. -/
def Path (edges : List (Id × Id)) : Id → Id → Prop :=
  Relation.TransGen fun near far => (near, far) ∈ edges

theorem mem_leaving {id : Id} :
    (near, far) ∈ leaving edges id ↔ (near, far) ∈ edges ∧ near = id := by
  simp [leaving]

theorem mem_without {id : Id} :
    (near, far) ∈ without edges id ↔ (near, far) ∈ edges ∧ near ≠ id := by
  simp [without]

theorem mem_newEnds {found : List Id} :
    far ∈ newEnds edges found ↔ (∃ near, (near, far) ∈ edges) ∧ far ∉ found := by
  simp [newEnds, List.mem_eraseDups]

/-- A neighbour is the end of an edge from one of the ids. -/
theorem mem_neighbors_iff {ids : List Id} :
    far ∈ neighbors edges ids ↔ ∃ near ∈ ids, (near, far) ∈ edges := by
  simp only [neighbors, mem_ascending, List.mem_map, List.mem_filter, List.contains_iff_mem]
  constructor
  · rintro ⟨⟨near, _⟩, ⟨hedge, hnear⟩, rfl⟩
    exact ⟨near, hnear, hedge⟩
  · rintro ⟨near, hnear, hedge⟩
    exact ⟨(near, far), ⟨hedge, hnear⟩, rfl⟩

theorem mem_newNeighbors {frontier reached : List Id} :
    far ∈ newNeighbors edges frontier reached ↔
      (∃ near ∈ frontier, (near, far) ∈ edges) ∧ far ∉ reached := by
  simp [newNeighbors, mem_neighbors_iff]

/-- What is found has any property that edges hand on from the root and from what has it. -/
theorem follow_sound (root : Id) {P : Id → Prop} {pending found : List Id}
    (hedges : ∀ near far, (near, far) ∈ edges → near = root ∨ P near → P far)
    (hpending : ∀ id ∈ pending, id = root ∨ P id) (hfound : ∀ id ∈ found, P id) :
    ∀ id ∈ follow edges pending found, P id := by
  fun_induction follow edges pending found with
  | case1 edges found => exact hfound
  | case2 edges found id rest hleave ih =>
    exact ih hedges (fun other hother => hpending other (List.mem_cons_of_mem id hother)) hfound
  | case3 edges found id rest first others hleave fresh ih =>
    have hfresh : ∀ other ∈ fresh, P other := by
      intro other hother
      obtain ⟨⟨near, hedge⟩, -⟩ := mem_newEnds.mp hother
      rw [← hleave] at hedge
      obtain ⟨hleaves, rfl⟩ := mem_leaving.mp hedge
      exact hedges near other hleaves (hpending near List.mem_cons_self)
    refine ih ?_ ?_ ?_
    · intro near far hedge
      exact hedges near far (mem_without.mp hedge).1
    · intro other hother
      rcases List.mem_append.mp hother with hrest | hnew
      · exact hpending other (List.mem_cons_of_mem id hrest)
      · exact Or.inr (hfresh other hnew)
    · intro other hother
      rcases List.mem_append.mp hother with hold | hnew
      · exact hfound other hold
      · exact hfresh other hnew

/-- What is found is closed under the edges, also under those that were followed and put aside. -/
theorem follow_closed {all : List (Id × Id)} {pending found : List Id}
    (hseen : ∀ near far, (near, far) ∈ all → (near, far) ∈ edges ∨ far ∈ found)
    (hdone : ∀ near, near = root ∨ near ∈ found → near ∈ pending ∨ ∀ far, (near, far) ∉ edges) :
    ∀ near far, (near, far) ∈ all → near = root ∨ near ∈ follow edges pending found →
      far ∈ follow edges pending found := by
  fun_induction follow edges pending found with
  | case1 edges found =>
    intro near far hedge hnear
    rcases hseen near far hedge with hleft | hfar
    · rcases hdone near hnear with hpending | hnone
      · cases hpending
      · exact absurd hleft (hnone far)
    · exact hfar
  | case2 edges found id rest hleave ih =>
    refine ih hseen ?_
    intro near hnear
    rcases hdone near hnear with hpending | hnone
    · rcases List.mem_cons.mp hpending with rfl | hrest
      · refine Or.inr fun far hedge => ?_
        have hmem := mem_leaving.mpr ⟨hedge, rfl⟩
        rw [hleave] at hmem
        cases hmem
      · exact Or.inl hrest
    · exact Or.inr hnone
  | case3 edges found id rest first others hleave fresh ih =>
    refine ih ?_ ?_
    · intro near far hedge
      rcases hseen near far hedge with hleft | hfar
      · by_cases hnear : near = id
        · have hmem := mem_leaving.mpr ⟨hleft, hnear⟩
          rw [hleave] at hmem
          by_cases hold : far ∈ found
          · exact Or.inr (List.mem_append_left fresh hold)
          · exact Or.inr (List.mem_append_right found (mem_newEnds.mpr ⟨⟨near, hmem⟩, hold⟩))
        · exact Or.inl (mem_without.mpr ⟨hleft, hnear⟩)
      · exact Or.inr (List.mem_append_left fresh hfar)
    · intro near hnear
      by_cases hfresh : near ∈ fresh
      · exact Or.inl (List.mem_append_right rest hfresh)
      · have hold : near = root ∨ near ∈ found := by
          simpa [hfresh] using hnear
        rcases hdone near hold with hpending | hnone
        · rcases List.mem_cons.mp hpending with rfl | hrest
          · exact Or.inr fun far hedge => (mem_without.mp hedge).2 rfl
          · exact Or.inl (List.mem_append_left fresh hrest)
        · exact Or.inr fun far hedge => hnone far (mem_without.mp hedge).1

/-- The native way finds the ends of the paths from the root. -/
theorem mem_native_iff : far ∈ native edges root ↔ Path edges root far := by
  rw [native, mem_ascending]
  constructor
  · refine follow_sound root ?_ ?_ ?_ far
    · rintro near far hedge (rfl | hpath)
      · exact Relation.TransGen.single hedge
      · exact hpath.tail hedge
    · intro id hid
      exact Or.inl (List.mem_singleton.mp hid)
    · intro id hid
      cases hid
  · have hclosed : ∀ near far, (near, far) ∈ edges →
        near = root ∨ near ∈ follow edges [root] [] → far ∈ follow edges [root] [] := by
      refine follow_closed (fun _ _ hedge => Or.inl hedge) ?_
      rintro near (rfl | hnone)
      · exact Or.inl List.mem_cons_self
      · cases hnone
    intro hpath
    induction hpath with
    | single hedge => exact hclosed _ _ hedge (Or.inl rfl)
    | tail _ hedge ih => exact hclosed _ _ hedge (Or.inr ih)

/-- Rounds find only what has every property that the roots hand on along the edges. -/
theorem expand_sound (roots : List Id) {P : Id → Prop} {frontier reached : List Id} {rounds : Nat}
    (hedges : ∀ near far, (near, far) ∈ edges → near ∈ roots ∨ P near → P far)
    (hfrontier : ∀ id ∈ frontier, id ∈ roots ∨ P id) (hreached : ∀ id ∈ reached, P id) :
    ∀ id ∈ (expand edges frontier reached rounds).reached, P id := by
  fun_induction expand edges frontier reached rounds with
  | case1 reached rounds => exact hreached
  | case2 reached rounds start others hnone => exact hreached
  | case3 reached rounds start others first more hnew ih =>
    have hfresh : ∀ id ∈ first :: more, P id := by
      intro id hid
      rw [← hnew] at hid
      obtain ⟨⟨near, hnear, hedge⟩, -⟩ := mem_newNeighbors.mp hid
      exact hedges near id hedge (hfrontier near hnear)
    refine ih ?_ ?_
    · exact fun id hid => Or.inr (hfresh id hid)
    · intro id hid
      rcases List.mem_append.mp hid with hold | hnewId
      · exact hreached id hold
      · exact hfresh id hnewId

/-- Only the frontier can have neighbours that are not reached yet. -/
theorem expand_closed {roots frontier reached : List Id} {rounds : Nat}
    (hdone : ∀ near far, (near, far) ∈ edges → near ∈ roots ∨ near ∈ reached →
      near ∈ frontier ∨ far ∈ reached) :
    ∀ near far, (near, far) ∈ edges →
      near ∈ roots ∨ near ∈ (expand edges frontier reached rounds).reached →
      far ∈ (expand edges frontier reached rounds).reached := by
  fun_induction expand edges frontier reached rounds with
  | case1 reached rounds =>
    intro near far hedge hnear
    rcases hdone near far hedge hnear with hfrontier | hfar
    · cases hfrontier
    · exact hfar
  | case2 reached rounds start others hnone =>
    intro near far hedge hnear
    rcases hdone near far hedge hnear with hfrontier | hfar
    · by_contra hmissing
      have hmem := mem_newNeighbors.mpr ⟨⟨near, hfrontier, hedge⟩, hmissing⟩
      rw [hnone] at hmem
      cases hmem
    · exact hfar
  | case3 reached rounds start others first more hnew ih =>
    refine ih ?_
    intro near far hedge hnear
    by_cases hfresh : near ∈ first :: more
    · exact Or.inl hfresh
    · have hold : near ∈ roots ∨ near ∈ reached := by
        rcases hnear with hroot | hreached
        · exact Or.inl hroot
        · exact Or.inr ((List.mem_append.mp hreached).resolve_right hfresh)
      refine Or.inr (List.mem_append.mpr ?_)
      rcases hdone near far hedge hold with hfrontier | hfar
      · by_cases hfar : far ∈ reached
        · exact Or.inl hfar
        · rw [← hnew]
          exact Or.inr (mem_newNeighbors.mpr ⟨⟨near, hfrontier, hedge⟩, hfar⟩)
      · exact Or.inl hfar

/-- Going on by rounds finds the ends of the paths from any of the roots. -/
theorem mem_byRounds_iff {roots : List Id} :
    far ∈ (byRounds edges roots).reached ↔ ∃ root ∈ roots, Path edges root far := by
  unfold byRounds
  constructor
  · refine expand_sound roots (P := fun far => ∃ root ∈ roots, Path edges root far) ?_ ?_ ?_ far
    · rintro near far hedge (hroot | ⟨root, hroot, hpath⟩)
      · exact ⟨near, hroot, Relation.TransGen.single hedge⟩
      · exact ⟨root, hroot, hpath.tail hedge⟩
    · exact fun id hid => Or.inl hid
    · intro id hid
      cases hid
  · have hclosed : ∀ near far, (near, far) ∈ edges →
        near ∈ roots ∨ near ∈ (expand edges roots [] 0).reached →
        far ∈ (expand edges roots [] 0).reached := by
      refine expand_closed ?_
      rintro near far - (hroot | hnone)
      · exact Or.inl hroot
      · cases hnone
    rintro ⟨root, hroot, hpath⟩
    induction hpath with
    | single hedge => exact hclosed _ _ hedge (Or.inl hroot)
    | tail _ hedge ih => exact hclosed _ _ hedge (Or.inr ih)

end Deliberation.Closure
