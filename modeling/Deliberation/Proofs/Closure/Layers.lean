import Deliberation.Proofs.Closure.Resolver
import Mathlib.Order.Lattice.Nat

/-!
Rounds of a search. Each round finds one layer: the ids whose shortest path from the roots has as
many edges as there were rounds. Empty paths do not count, so a root is found like any other id,
when a path leads back to it, and then its neighbors are asked for a second time; but all of them
have been reached by then. So the search ends one round after the last layer.
-/

namespace Deliberation

namespace Closure

inductive Steps (step : Id → Id → Prop) (root : Id) : Nat → Id → Prop where
  | none : Steps step root 0 root
  | more {length : Nat} {near far : Id} (hpath : Steps step root length near)
      (hlast : step near far) :
      Steps step root (length + 1) far

/-- The lengths of the paths to `far` that start from any of `roots` and are not empty. -/
def pathLengths (step : Id → Id → Prop) (roots : List Id) (far : Id) : Set Nat :=
  {length | 0 < length ∧ ∃ root ∈ roots, Steps step root length far}

/-- An edge leads from one id to the other. -/
def HasEdge (edges : List (Id × Id)) (near far : Id) : Prop := (near, far) ∈ edges

structure Front where
  frontier : List Id
  reached : List Id

/-- At the beginning the roots are to be asked about, and nothing has been found. -/
def Front.ofRoots (roots : List Id) : Front := ⟨roots, []⟩

/-- One round: the neighbors of the frontier are asked for, and the new ones among them are the next
frontier. -/
def Front.ask (edges : List (Id × Id)) (front : Front) : Front :=
  let fresh := newNeighbors edges front.frontier front.reached
  ⟨fresh, front.reached ++ fresh⟩

def Front.after (edges : List (Id × Id)) (start : Front) (rounds : Nat) : Front :=
  (ask edges)^[rounds] start

variable {edges : List (Id × Id)} {front start : Front} {roots : List Id} {rounds : Nat} {far : Id}

theorem Front.after_succ (edges : List (Id × Id)) (start : Front) (rounds : Nat) :
    start.after edges (rounds + 1) = (start.after edges rounds).ask edges :=
  Function.iterate_succ_apply' _ _ _

structure StopsAfter (edges : List (Id × Id)) (start : Front) (rounds : Nat) : Prop where
  stops : (start.after edges rounds).frontier = []
  goes_on : ∀ earlier < rounds, (start.after edges earlier).frontier ≠ []

theorem stopsAfter_zero (h : start.frontier = []) : StopsAfter edges start 0 where
  stops := h
  goes_on _ hearlier := absurd hearlier (Nat.not_lt_zero _)

/-- A search that still has something to ask for takes one round more than from the next state on.
-/
theorem StopsAfter.of_ask (hsome : start.frontier ≠ [])
    (h : StopsAfter edges (start.ask edges) rounds) : StopsAfter edges start (rounds + 1) where
  stops := h.stops
  goes_on earlier hearlier := by
    cases earlier with
    | zero => exact hsome
    | succ earlier => exact h.goes_on earlier (Nat.lt_of_succ_lt_succ hearlier)

/-- Whatever the edges are, the search comes to an end. -/
theorem exists_stopsAfter (edges : List (Id × Id)) (frontier reached : List Id) (before : Nat) :
    ∃ rounds, StopsAfter edges ⟨frontier, reached⟩ rounds := by
  fun_induction expand edges frontier reached before with
  | case1 reached before => exact ⟨0, stopsAfter_zero rfl⟩
  | case2 reached before first others hnone =>
    have hstop : StopsAfter edges (Front.ask edges ⟨first :: others, reached⟩) 0 :=
      stopsAfter_zero hnone
    exact ⟨1, hstop.of_ask (List.cons_ne_nil first others)⟩
  | case3 reached before first others far more hnew ih =>
    have hask : Front.ask edges ⟨first :: others, reached⟩ =
        ⟨far :: more, reached ++ far :: more⟩ := by
      simp only [Front.ask, hnew]
    obtain ⟨rounds, hstop⟩ := ih
    exact ⟨rounds + 1, (hask ▸ hstop).of_ask (List.cons_ne_nil first others)⟩

/-- As long as there is a frontier, the search goes on with one more round. -/
theorem expand_ask (hsome : front.frontier ≠ []) (before : Nat) :
    expand edges front.frontier front.reached before =
      expand edges (front.ask edges).frontier (front.ask edges).reached (before + 1) := by
  obtain ⟨_ | ⟨first, others⟩, reached⟩ := front
  · exact absurd rfl hsome
  · rw [expand]
    split
    · rename_i hnone
      simp only [Front.ask, hnone, List.append_nil]
      rw [expand]
    · rename_i hnew
      simp only [Front.ask, hnew]

/-- The search comes through all the states up to the one where it stops. -/
theorem StopsAfter.expand_eq (h : StopsAfter edges start rounds) {round : Nat}
    (hround : round ≤ rounds) :
    expand edges start.frontier start.reached 0 =
      expand edges (start.after edges round).frontier (start.after edges round).reached round := by
  induction round with
  | zero => rfl
  | succ round ih =>
    rw [ih (Nat.le_of_succ_le hround), expand_ask (h.goes_on round hround), ← Front.after_succ]

/-! ## Layers -/

/-- The frontier is the layer of the last round, and what has been reached are the layers up to it.
Before the first round the frontier are the roots, at the ends of empty paths. -/
structure Layered (edges : List (Id × Id)) (roots : List Id) (rounds : Nat) (front : Front) :
    Prop where
  mem_frontier : ∀ far, far ∈ front.frontier ↔
    (∃ root ∈ roots, Steps (HasEdge edges) root rounds far) ∧
      ∀ length ∈ pathLengths (HasEdge edges) roots far, rounds ≤ length
  mem_reached : ∀ far, far ∈ front.reached ↔
    ∃ length ∈ pathLengths (HasEdge edges) roots far, length ≤ rounds

theorem layered_start (edges : List (Id × Id)) (roots : List Id) :
    Layered edges roots 0 (.ofRoots roots) where
  mem_frontier far := by
    constructor
    · exact fun hroot => ⟨⟨far, hroot, .none⟩, fun _ _ => Nat.zero_le _⟩
    · rintro ⟨⟨root, hroot, ⟨⟩⟩, -⟩
      exact hroot
  mem_reached far := by
    constructor
    · exact fun hnone => absurd hnone List.not_mem_nil
    · rintro ⟨length, ⟨hpositive, -⟩, hle⟩
      omega

/-- A new neighbor of the frontier has a path that is longer by one edge, and no shorter one, or it
would have been reached. -/
theorem Layered.mem_newNeighbors_iff (h : Layered edges roots rounds front) :
    far ∈ newNeighbors edges front.frontier front.reached ↔
      (∃ root ∈ roots, Steps (HasEdge edges) root (rounds + 1) far) ∧
        ∀ length ∈ pathLengths (HasEdge edges) roots far, rounds + 1 ≤ length := by
  rw [mem_newNeighbors]
  constructor
  · rintro ⟨⟨near, hnear, hedge⟩, hnew⟩
    obtain ⟨⟨root, hroot, hpath⟩, -⟩ := (h.mem_frontier near).mp hnear
    refine ⟨⟨root, hroot, hpath.more hedge⟩, fun length hlength => ?_⟩
    by_contra hshort
    exact hnew ((h.mem_reached far).mpr ⟨length, hlength, by omega⟩)
  · rintro ⟨⟨root, hroot, hpath⟩, hleast⟩
    cases hpath with
    | @more _ near _ hpath hedge =>
      refine ⟨⟨near, (h.mem_frontier near).mpr ⟨⟨root, hroot, hpath⟩, ?_⟩, hedge⟩, fun hold => ?_⟩
      · rintro length ⟨-, other, hother, hshorter⟩
        exact Nat.le_of_succ_le_succ
          (hleast (length + 1) ⟨Nat.succ_pos _, other, hother, hshorter.more hedge⟩)
      · obtain ⟨length, hlength, hle⟩ := (h.mem_reached far).mp hold
        have := hleast length hlength
        omega

theorem Layered.ask (h : Layered edges roots rounds front) :
    Layered edges roots (rounds + 1) (front.ask edges) where
  mem_frontier _ := h.mem_newNeighbors_iff
  mem_reached far := by
    rw [Front.ask, List.mem_append, h.mem_newNeighbors_iff, h.mem_reached]
    constructor
    · rintro (⟨length, hlength, hle⟩ | ⟨hpath, -⟩)
      · exact ⟨length, hlength, Nat.le_succ_of_le hle⟩
      · exact ⟨rounds + 1, ⟨Nat.succ_pos _, hpath⟩, Nat.le_refl _⟩
    · rintro ⟨length, hlength, hle⟩
      by_cases hold : ∃ shorter ∈ pathLengths (HasEdge edges) roots far, shorter ≤ rounds
      · exact Or.inl hold
      · have hleast : ∀ other ∈ pathLengths (HasEdge edges) roots far, rounds + 1 ≤ other :=
          fun other hother => Nat.lt_of_not_le fun hshort => hold ⟨other, hother, hshort⟩
        obtain rfl := Nat.le_antisymm hle (hleast length hlength)
        exact Or.inr ⟨hlength.2, hleast⟩

/-- After any number of rounds the search stands at the layer of this number. -/
theorem layered_after (edges : List (Id × Id)) (roots : List Id) (rounds : Nat) :
    Layered edges roots rounds ((Front.ofRoots roots).after edges rounds) := by
  induction rounds with
  | zero => exact layered_start edges roots
  | succ rounds ih =>
    rw [Front.after_succ]
    exact ih.ask

/-- The frontier are the ids whose shortest path has as many steps as there were rounds. -/
theorem Layered.mem_frontier_iff_isLeast (h : Layered edges roots rounds front)
    (hpositive : 0 < rounds) :
    far ∈ front.frontier ↔ IsLeast (pathLengths (HasEdge edges) roots far) rounds := by
  rw [h.mem_frontier]
  constructor
  · exact fun ⟨hpath, hleast⟩ => ⟨⟨hpositive, hpath⟩, hleast⟩
  · exact fun ⟨⟨_, hpath⟩, hleast⟩ => ⟨hpath, hleast⟩

/-! ## The number of rounds -/

/-- Once the frontier is empty it stays so. -/
theorem frontier_after_eq_nil {earlier : Nat} (h : (start.after edges earlier).frontier = [])
    (hle : earlier ≤ rounds) : (start.after edges rounds).frontier = [] := by
  induction rounds, hle using Nat.le_induction with
  | base => exact h
  | succ rounds _ ih =>
    rw [Front.after_succ]
    refine List.eq_nil_iff_forall_not_mem.mpr fun far hfar => ?_
    obtain ⟨⟨near, hnear, -⟩, -⟩ := mem_newNeighbors.mp hfar
    rw [ih] at hnear
    cases hnear

/-- There are no layers behind the last round. -/
theorem StopsAfter.lt_of_isLeast (h : StopsAfter edges (.ofRoots roots) rounds) {length : Nat}
    (hleast : IsLeast (pathLengths (HasEdge edges) roots far) length) : length < rounds := by
  by_contra hlate
  have hmem := ((layered_after edges roots length).mem_frontier_iff_isLeast hleast.1.1).mpr hleast
  rw [frontier_after_eq_nil h.stops (Nat.not_lt.mp hlate)] at hmem
  cases hmem

/-- Without roots there is no round. With roots there is one more than there are layers. -/
theorem StopsAfter.rounds_eq (h : StopsAfter edges (.ofRoots roots) rounds) :
    (roots = [] → rounds = 0) ∧
      (roots ≠ [] → ∃ last, rounds = last + 1 ∧
        ((((Front.ofRoots roots).after edges rounds).reached = [] ∧ last = 0) ∨
          IsGreatest {length | ∃ id ∈ ((Front.ofRoots roots).after edges rounds).reached,
            IsLeast (pathLengths (HasEdge edges) roots id) length} last)) := by
  constructor
  · rintro rfl
    by_contra hsome
    exact h.goes_on 0 (Nat.pos_of_ne_zero hsome) rfl
  · intro hroots
    cases rounds with
    | zero => exact absurd h.stops hroots
    | succ last =>
      refine ⟨last, rfl, ?_⟩
      have hlayered := layered_after edges roots (last + 1)
      cases last with
      | zero =>
        refine Or.inl ⟨List.eq_nil_iff_forall_not_mem.mpr fun far hfar => ?_, rfl⟩
        obtain ⟨length, hlength, -⟩ := (hlayered.mem_reached far).mp hfar
        have hleast := isLeast_csInf ⟨length, hlength⟩
        have hfirst := h.lt_of_isLeast hleast
        have hpositive := hleast.1.1
        omega
      | succ last =>
        refine Or.inr ⟨?_, fun length ⟨id, _, hleast⟩ => Nat.le_of_lt_succ (h.lt_of_isLeast hleast)⟩
        obtain ⟨id, hid⟩ := List.exists_mem_of_ne_nil _ (h.goes_on (last + 1) (Nat.lt_succ_self _))
        have hleast :=
          ((layered_after edges roots (last + 1)).mem_frontier_iff_isLeast (Nat.succ_pos _)).mp hid
        exact ⟨id, (hlayered.mem_reached id).mpr ⟨last + 1, hleast.1, Nat.le_succ _⟩, hleast⟩

/-- A root on a cycle is found in the second round, and a third one finds nothing new. -/
example : byRounds [(1, 2), (2, 1)] [1] = ⟨[2, 1], 3⟩ := by
  decide +kernel

end Closure

open Closure

/-- A search by rounds goes layer by layer, whatever the links are and whichever roots are given:
after each round it has reached the ideas with paths of at most as many live links as there were
rounds, and its frontier are those whose shortest path has just as many. It ends, and it notes how
many rounds it took: none without roots, and otherwise one more than the shortest path to the idea
farthest away among those reached has links, or one if none is reached. -/
theorem Store.expansion_by_layers (store : Store) (roots : List Id) (direction : Direction)
    (inclusive : Bool) :
    let front := (Front.ofRoots roots).after (store.edges direction)
    let lengths := pathLengths (store.LeadsTo direction) roots
    (∀ round, 0 < round → ∀ id, (id ∈ (front round).frontier ↔ IsLeast (lengths id) round) ∧
      (id ∈ (front round).reached ↔ ∃ length ∈ lengths id, length ≤ round)) ∧
    ∃ rounds found, (front rounds).frontier = [] ∧
      (∀ earlier < rounds, (front earlier).frontier ≠ []) ∧
      (∀ round ≤ rounds, byRounds (store.edges direction) roots =
        expand (store.edges direction) (front round).frontier (front round).reached round) ∧
      found = including inclusive roots (front rounds).reached ∧
      store.expansion roots direction inclusive =
        ⟨[⟨[], .fixedPointClosure roots.length rounds found.length⟩], .ok found⟩ ∧
      (roots = [] → rounds = 0) ∧
      (roots ≠ [] → ∃ last, rounds = last + 1 ∧ (((front rounds).reached = [] ∧ last = 0) ∨
        IsGreatest {length | ∃ id ∈ (front rounds).reached, IsLeast (lengths id) length}
        last)) := by
  intro front lengths
  have hstep : store.LeadsTo direction = HasEdge (store.edges direction) := by
    funext near far
    exact propext mem_edges_iff.symm
  have hlengths : lengths = pathLengths (HasEdge (store.edges direction)) roots := by
    rw [← hstep]
  rw [hlengths]
  refine ⟨fun round hround id => ?_, ?_⟩
  · have hlayered := layered_after (store.edges direction) roots round
    exact ⟨hlayered.mem_frontier_iff_isLeast hround, hlayered.mem_reached id⟩
  · obtain ⟨rounds, hstops⟩ := exists_stopsAfter (store.edges direction) roots [] 0
    have hstates : ∀ round ≤ rounds, byRounds (store.edges direction) roots =
        expand (store.edges direction) (front round).frontier (front round).reached round :=
      fun round hround => hstops.expand_eq hround
    have hend : byRounds (store.edges direction) roots = ⟨(front rounds).reached, rounds⟩ := by
      rw [hstates rounds (Nat.le_refl _), show (front rounds).frontier = [] from hstops.stops,
        expand]
    have hresult : store.expansion roots direction inclusive =
        ⟨[⟨[], .fixedPointClosure roots.length rounds
          (including inclusive roots (front rounds).reached).length⟩],
          .ok (including inclusive roots (front rounds).reached)⟩ := by
      rw [Store.expansion, hend]
      rfl
    exact ⟨rounds, _, hstops.stops, hstops.goes_on, hstates, rfl, hresult, hstops.rounds_eq⟩

end Deliberation
