import Deliberation.Id

/-!
Closures of lists of edges: which ids can be reached from given ones by one step or more. A start is
reached only if some path leads back to it. There are two ways to find out. The native one takes
every edge once; the other one goes on by rounds, each of which asks for all neighbours of what the
round before has found.
-/

namespace Deliberation.Closure

def neighbors (edges : List (Id × Id)) (ids : List Id) : List Id :=
  ascending ((edges.filter fun edge => ids.contains edge.1).map (·.2))

def leaving (edges : List (Id × Id)) (id : Id) : List (Id × Id) :=
  edges.filter fun edge => edge.1 == id

def without (edges : List (Id × Id)) (id : Id) : List (Id × Id) :=
  edges.filter fun edge => edge.1 != id

theorem length_without_lt {edges others : List (Id × Id)} {id : Id} {first : Id × Id}
    (h : leaving edges id = first :: others) : (without edges id).length < edges.length := by
  have hfirst : first ∈ leaving edges id := by
    rw [h]
    exact List.mem_cons_self
  have hmem := List.mem_filter.mp hfirst
  apply List.length_filter_lt_length_iff_exists.mpr
  exact ⟨first, hmem.1, by simpa using hmem.2⟩

def newEnds (edges : List (Id × Id)) (found : List Id) : List Id :=
  ((edges.map (·.2)).filter fun far => !found.contains far).eraseDups

/-- Adds to `found` what can be reached from `pending`. Edges that were followed are not needed
again. -/
def follow (edges : List (Id × Id)) (pending found : List Id) : List Id :=
  match pending with
  | [] => found
  | id :: rest =>
    match _leave : leaving edges id with
    | [] => follow edges rest found
    | first :: others =>
      let fresh := newEnds (first :: others) found
      follow (without edges id) (rest ++ fresh) (found ++ fresh)
termination_by (edges.length, pending.length)
decreasing_by
  · exact Prod.Lex.right _ (Nat.lt_succ_self _)
  · exact Prod.Lex.left _ _ (length_without_lt _leave)

def native (edges : List (Id × Id)) (root : Id) : List Id :=
  ascending (follow edges [root] [])

structure Expansion where
  reached : List Id
  rounds : Nat
deriving DecidableEq, Repr

def unreached (edges : List (Id × Id)) (reached : List Id) : List Id :=
  (edges.map (·.2)).filter fun far => !reached.contains far

theorem mem_neighbors {edges : List (Id × Id)} {ids : List Id} {far : Id}
    (h : far ∈ neighbors edges ids) : far ∈ edges.map (·.2) := by
  unfold neighbors ascending at h
  rw [List.mem_eraseDups, List.mem_mergeSort] at h
  obtain ⟨edge, hedge, hfar⟩ := List.mem_map.mp h
  exact List.mem_map.mpr ⟨edge, (List.mem_filter.mp hedge).1, hfar⟩

/-- Reaching something new leaves less that has not been reached. -/
theorem length_unreached_lt {edges : List (Id × Id)} {reached fresh : List Id} {far : Id}
    (hend : far ∈ edges.map (·.2)) (hnew : far ∉ reached) (hfresh : far ∈ fresh) :
    (unreached edges (reached ++ fresh)).length < (unreached edges reached).length := by
  have hsplit : unreached edges (reached ++ fresh) =
      (unreached edges reached).filter fun far => !fresh.contains far := by
    unfold unreached
    rw [List.filter_filter]
    congr 1
    funext x
    simp [Bool.and_comm]
  rw [hsplit]
  apply List.length_filter_lt_length_iff_exists.mpr
  exact ⟨far, List.mem_filter.mpr ⟨hend, by simpa using hnew⟩, by simpa using hfresh⟩

def newNeighbors (edges : List (Id × Id)) (frontier reached : List Id) : List Id :=
  (neighbors edges frontier).filter fun far => !reached.contains far

def expand (edges : List (Id × Id)) (frontier reached : List Id) (rounds : Nat) : Expansion :=
  match frontier with
  | [] => ⟨reached, rounds⟩
  | start :: others =>
    match h : newNeighbors edges (start :: others) reached with
    | [] => ⟨reached, rounds + 1⟩
    | far :: more => expand edges (far :: more) (reached ++ far :: more) (rounds + 1)
termination_by (unreached edges reached).length
decreasing_by
  have hfar : far ∈ newNeighbors edges (start :: others) reached := by
    rw [h]
    exact List.mem_cons_self
  have hmem := List.mem_filter.mp hfar
  exact length_unreached_lt (mem_neighbors hmem.1) (by simpa using hmem.2) List.mem_cons_self

def byRounds (edges : List (Id × Id)) (roots : List Id) : Expansion :=
  expand edges roots [] 0

end Deliberation.Closure
