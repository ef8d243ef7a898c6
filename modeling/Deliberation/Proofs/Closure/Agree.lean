import Deliberation.Proofs.Closure.Resolver
import Deliberation.Proofs.Store.Agree

/-!
Closures that start in a discussion. Edges elsewhere make no difference to a search that they cannot
be reached from, not even to the number of its rounds.
-/

namespace Deliberation

namespace Closure

variable {P : Id → Prop} {edges others : List (Id × Id)} {root far : Id}

structure AgreeOn (P : Id → Prop) (edges others : List (Id × Id)) : Prop where
  closed : ∀ near far, P near → (near, far) ∈ edges → P far
  same : ∀ near far, P near → ((near, far) ∈ others ↔ (near, far) ∈ edges)

namespace AgreeOn

theorem neighbors_eq (h : AgreeOn P edges others) {ids : List Id} (hids : ∀ id ∈ ids, P id) :
    neighbors others ids = neighbors edges ids := by
  refine ascending_congr fun far => mem_ascending.symm.trans (Iff.trans ?_ mem_ascending)
  change far ∈ neighbors others ids ↔ far ∈ neighbors edges ids
  rw [mem_neighbors_iff, mem_neighbors_iff]
  exact exists_congr fun near => and_congr_right fun hnear => h.same near far (hids near hnear)

theorem newNeighbors_eq (h : AgreeOn P edges others) {frontier : List Id}
    (hfrontier : ∀ id ∈ frontier, P id) (reached : List Id) :
    newNeighbors others frontier reached = newNeighbors edges frontier reached := by
  rw [newNeighbors, h.neighbors_eq hfrontier, newNeighbors]

/-- Rounds find the same, and as many of them are needed. -/
theorem expand_eq (h : AgreeOn P edges others) {frontier reached : List Id} {rounds : Nat}
    (hfrontier : ∀ id ∈ frontier, P id) :
    expand others frontier reached rounds = expand edges frontier reached rounds := by
  fun_induction expand edges frontier reached rounds with
  | case1 reached rounds => rw [expand]
  | case2 reached rounds start rest hnone =>
    rw [← h.newNeighbors_eq hfrontier] at hnone
    rw [expand]
    split
    · rfl
    · rename_i hsome
      cases hnone.symm.trans hsome
  | case3 reached rounds start rest first more hnew ih =>
    have hfresh : ∀ id ∈ first :: more, P id := by
      intro id hid
      rw [← hnew] at hid
      obtain ⟨⟨near, hnear, hedge⟩, -⟩ := mem_newNeighbors.mp hid
      exact h.closed near id (hfrontier near hnear) hedge
    rw [← ih hfresh]
    rw [← h.newNeighbors_eq hfrontier] at hnew
    rw [expand]
    split
    · rename_i hnone
      cases hnone.symm.trans hnew
    · rename_i hsome
      cases hsome.symm.trans hnew
      rfl

theorem byRounds_eq (h : AgreeOn P edges others) {roots : List Id}
    (hroots : ∀ root ∈ roots, P root) : byRounds others roots = byRounds edges roots :=
  h.expand_eq hroots

/-- A path from one of the ids does not leave them, and it is a path of both. -/
theorem path (h : AgreeOn P edges others) (hroot : P root) (hpath : Path edges root far) :
    P far ∧ Path others root far := by
  induction hpath with
  | single hedge => exact ⟨h.closed _ _ hroot hedge, .single ((h.same _ _ hroot).mpr hedge)⟩
  | tail _ hedge ih => exact ⟨h.closed _ _ ih.1 hedge, ih.2.tail ((h.same _ _ ih.1).mpr hedge)⟩

theorem symm (h : AgreeOn P edges others) : AgreeOn P others edges where
  closed near far hnear hedge := h.closed near far hnear ((h.same near far hnear).mp hedge)
  same near far hnear := (h.same near far hnear).symm

theorem path_iff (h : AgreeOn P edges others) (hroot : P root) :
    Path others root far ↔ Path edges root far :=
  ⟨fun hpath => (h.symm.path hroot hpath).2, fun hpath => (h.path hroot hpath).2⟩

end AgreeOn

end Closure

namespace Store

variable {store before after : Store} {discussion root : Id} {roots ids : List Id}
  {direction : Direction} {inclusive : Bool}

/-! ## Two stores whose links agree -/

section

variable {P : Id → Prop}

theorem closure_congr (h : Closure.AgreeOn P (before.edges direction) (after.edges direction))
    (hroot : P root) :
    after.closure root direction inclusive = before.closure root direction inclusive := by
  have hsame : after.nativeClosure root direction inclusive =
      before.nativeClosure root direction inclusive := by
    refine Closure.including_congr fun id => ?_
    rw [Closure.mem_native_iff, Closure.mem_native_iff, h.path_iff hroot]
  unfold closure
  rw [hsame]

theorem expansion_congr (h : Closure.AgreeOn P (before.edges direction) (after.edges direction))
    (hroots : ∀ root ∈ roots, P root) :
    after.expansion roots direction inclusive = before.expansion roots direction inclusive := by
  unfold expansion
  rw [h.byRounds_eq hroots]

/-- Where the links agree, a strategy finds the same below an idea, and it logs the same. -/
theorem descendants_congr (h : Closure.AgreeOn P (before.edges .forward) (after.edges .forward))
    (strategy : ClosureStrategy) (hroot : P root) (inclusive : Bool) :
    strategy.descendants after root inclusive = strategy.descendants before root inclusive := by
  unfold ClosureStrategy.descendants
  cases strategy with
  | native =>
    dsimp only
    rw [closure_congr h hroot]
  | fixedPoint =>
    dsimp only
    rw [expansion_congr h fun other hother => List.mem_singleton.mp hother ▸ hroot]

theorem ancestors_congr (h : Closure.AgreeOn P (before.edges .backward) (after.edges .backward))
    (strategy : ClosureStrategy) (hroots : ∀ root ∈ roots, P root) (inclusive : Bool) :
    strategy.ancestors after roots inclusive = strategy.ancestors before roots inclusive := by
  unfold ClosureStrategy.ancestors
  cases strategy with
  | native =>
    match roots with
    | [] => rfl
    | [root] =>
      dsimp only
      rw [closure_congr h (hroots root List.mem_cons_self)]
    | _ :: _ :: _ => rfl
  | fixedPoint =>
    dsimp only
    rw [expansion_congr h hroots]

end

/-! ## Links of one discussion -/

/-- Live links do not leave a discussion, in either direction. -/
theorem Consistent.hasIdea_of_leadsTo (h : store.Consistent) {near far : Id}
    (hnear : store.HasIdea discussion near) (hleads : store.LeadsTo direction near far) :
    store.HasIdea discussion far := by
  obtain ⟨⟨link, row, hrow, hlive, hends⟩, -⟩ := hleads
  cases direction with
  | forward =>
    obtain ⟨rfl, rfl⟩ := hends
    exact (h.hasIdea_ends hrow hlive).mp hnear
  | backward =>
    obtain ⟨rfl, rfl⟩ := hends
    exact (h.hasIdea_ends hrow hlive).mpr hnear

theorem Consistent.hasIdea_of_reaches (h : store.Consistent) {far : Id}
    (hroot : store.HasIdea discussion root) (hpath : store.Reaches direction root far) :
    store.HasIdea discussion far := by
  induction hpath with
  | single hleads => exact h.hasIdea_of_leadsTo hroot hleads
  | tail _ hleads ih => exact h.hasIdea_of_leadsTo ih hleads

theorem Consistent.hasIdea_of_closure (h : store.Consistent)
    (hclosure : store.IsClosureOf direction roots inclusive ids)
    (hroots : ∀ root ∈ roots, store.HasIdea discussion root) :
    ∀ id ∈ ids, store.HasIdea discussion id := by
  intro id hid
  obtain ⟨root, hroot, hpath | ⟨-, rfl⟩⟩ := (hclosure.2 id).mp hid
  · exact h.hasIdea_of_reaches (hroots root hroot) hpath
  · exact hroots _ hroot

namespace AgreeOn

theorem leadsTo (h : AgreeOn discussion before after) {near far : Id}
    (hnear : before.HasIdea discussion near) (hleads : before.LeadsTo direction near far) :
    after.LeadsTo direction near far := by
  have hfar := h.consistent.hasIdea_of_leadsTo hnear hleads
  obtain ⟨⟨link, row, hrow, hlive, hends⟩, hlead⟩ := hleads
  have hsource : before.HasIdea discussion row.source := by
    cases direction with
    | forward => exact hends.1 ▸ hnear
    | backward => exact hends.2 ▸ hfar
  refine ⟨⟨link, row, (h.links link row hsource).mp hrow, hlive, hends⟩, ?_⟩
  rw [h.get?_idea hfar]
  exact hlead

/-- Stores that agree on a discussion have the same edges in it, and none of these leads out of it.
-/
theorem edges (h : AgreeOn discussion before after) (direction : Direction) :
    Closure.AgreeOn (before.HasIdea discussion) (before.edges direction)
      (after.edges direction) where
  closed near far hnear hedge := h.consistent.hasIdea_of_leadsTo hnear (mem_edges_iff.mp hedge)
  same near far hnear := by
    rw [mem_edges_iff, mem_edges_iff]
    exact ⟨h.symm.leadsTo (h.hasIdea_iff.mp hnear), h.leadsTo hnear⟩

theorem neighbors_eq (h : AgreeOn discussion before after)
    (hids : ∀ id ∈ ids, before.HasIdea discussion id) (direction : Direction) :
    after.neighbors ids direction = before.neighbors ids direction :=
  (h.edges direction).neighbors_eq hids

theorem closure_eq (h : AgreeOn discussion before after) (hroot : before.HasIdea discussion root) :
    after.closure root direction inclusive = before.closure root direction inclusive :=
  closure_congr (h.edges direction) hroot

theorem descendants_eq (h : AgreeOn discussion before after) (strategy : ClosureStrategy)
    (hroot : before.HasIdea discussion root) (inclusive : Bool) :
    strategy.descendants after root inclusive = strategy.descendants before root inclusive :=
  descendants_congr (h.edges .forward) strategy hroot inclusive

theorem ancestors_eq (h : AgreeOn discussion before after) (strategy : ClosureStrategy)
    (hroots : ∀ root ∈ roots, before.HasIdea discussion root) (inclusive : Bool) :
    strategy.ancestors after roots inclusive = strategy.ancestors before roots inclusive :=
  ancestors_congr (h.edges .backward) strategy hroots inclusive

end AgreeOn

/-- What is found below an idea belongs to the discussion of the idea. -/
theorem Consistent.hasIdea_of_descendants (h : store.Consistent) (strategy : ClosureStrategy)
    (hroot : store.HasIdea discussion root)
    (hids : (strategy.descendants store root inclusive).result = .ok ids) :
    ∀ id ∈ ids, store.HasIdea discussion id := by
  obtain ⟨found, hfound, hclosure⟩ := expansion_result store .forward [root] inclusive
  cases hids.symm.trans ((strategy.descendants_result root).trans hfound)
  exact h.hasIdea_of_closure hclosure fun other hother => List.mem_singleton.mp hother ▸ hroot

end Store

end Deliberation
