import Deliberation.Closure.Resolver
import Deliberation.Proofs.Closure.Edges
import Deliberation.Proofs.Place
import Mathlib.Data.List.Sort

/-!
Sorted lists and closures in a form that can be evaluated. Sorting by merging and the search for
what an id leads to go by well-founded recursion, which does not reduce. Sorting by insertion, and
the same search with a bound on its steps, come to the same and reduce on closed terms.
-/

namespace Deliberation

/-- A list that is sorted by merging is the list sorted by insertion, also where the order takes
different members for equal: both leave these as they stand. -/
theorem mergeSort_eq_insertionSort {α : Type} {le : α → α → Bool}
    (htrans : ∀ a b c, le a b → le b c → le a c) (htotal : ∀ a b, le a b || le b a) (l : List α) :
    l.mergeSort le = l.insertionSort fun a b => le a b := by
  induction l with
  | nil => rw [List.mergeSort_nil, List.insertionSort_nil]
  | cons a l ih =>
    obtain ⟨front, back, hcons, hsort, hfront⟩ := List.mergeSort_cons htrans htotal a l
    have hordered := hcons ▸ List.pairwise_mergeSort htrans htotal (a :: l)
    have hback := List.pairwise_cons.mp (List.pairwise_append.mp hordered).2.1
    rw [List.insertionSort_cons, ← ih, hsort, hcons]
    clear hcons hsort hordered
    induction front with
    | nil =>
      cases back with
      | nil => rfl
      | cons b back => simp [hback.1 b List.mem_cons_self]
    | cons b front ihf =>
      have hb := hfront b List.mem_cons_self
      simp only [Bool.not_eq_true'] at hb
      simp only [List.cons_append, List.orderedInsert_cons, hb, Bool.false_eq_true, if_false]
      rw [← ihf fun c hc => hfront c (List.mem_cons_of_mem b hc)]

theorem ascending_eq_insertionSort (ids : List Id) :
    ascending ids = (ids.insertionSort (· ≤ ·)).eraseDups := by
  rw [ascending, List.mergeSort_eq_insertionSort]

namespace Closure

/-- The search of `follow` with at most a given number of steps. -/
def followWithin : Nat → List (Id × Id) → List Id → List Id → List Id
  | 0, _, _, found => found
  | _ + 1, _, [], found => found
  | steps + 1, edges, id :: rest, found =>
    let fresh := newEnds (leaving edges id) found
    followWithin steps (without edges id) (rest ++ fresh) (found ++ fresh)

theorem without_of_leaving_eq_nil {edges : List (Id × Id)} {id : Id} (h : leaving edges id = []) :
    without edges id = edges := by
  refine List.filter_eq_self.mpr fun edge hedge => ?_
  simpa using List.filter_eq_nil_iff.mp h edge hedge

theorem length_leaving_add_length_without (edges : List (Id × Id)) (id : Id) :
    (leaving edges id).length + (without edges id).length = edges.length :=
  List.length_eq_length_filter_add _ ▸ rfl

theorem length_eraseDups_le (ids : List Id) : ids.eraseDups.length ≤ ids.length := by
  match ids with
  | [] => exact Nat.le_refl 0
  | id :: rest =>
    rw [List.eraseDups_cons, List.length_cons, List.length_cons]
    exact Nat.succ_le_succ ((length_eraseDups_le _).trans (List.length_filter_le _ rest))
termination_by ids.length
decreasing_by exact Nat.lt_succ_of_le (List.length_filter_le _ rest)

theorem length_newEnds_le (edges : List (Id × Id)) (found : List Id) :
    (newEnds edges found).length ≤ edges.length := by
  refine (length_eraseDups_le _).trans ((List.length_filter_le _ _).trans ?_)
  rw [List.length_map]

/-- A step takes one id and the edges that leave it, and no more ids than edges come in their
place. -/
theorem follow_eq_followWithin (edges : List (Id × Id)) (pending found : List Id) : ∀ steps : Nat,
    edges.length + pending.length ≤ steps →
      follow edges pending found = followWithin steps edges pending found := by
  fun_induction follow edges pending found with
  | case1 edges found =>
    intro steps _
    cases steps <;> rfl
  | case2 edges found id rest hleave ih =>
    intro steps h
    rw [List.length_cons] at h
    obtain ⟨steps, rfl⟩ : ∃ more, steps = more + 1 := ⟨steps - 1, by omega⟩
    rw [ih steps (by omega), followWithin, hleave, without_of_leaving_eq_nil hleave]
    simp [newEnds]
  | case3 edges found id rest first others hleave fresh ih =>
    intro steps h
    have hlength := length_leaving_add_length_without edges id
    have hfresh : fresh.length ≤ (first :: others).length :=
      length_newEnds_le (first :: others) found
    rw [hleave] at hlength
    rw [List.length_cons] at h
    obtain ⟨steps, rfl⟩ : ∃ more, steps = more + 1 := ⟨steps - 1, by omega⟩
    rw [followWithin, hleave]
    exact ih steps (by rw [List.length_append]; omega)

end Closure

theorem Store.childLinks_eq_insertionSort (store : Store) (idea : Id) :
    store.childLinks idea = (store.liveLinks.filter fun entry =>
      entry.2.source == idea && store.isLiveIdea entry.2.target).insertionSort fun a b =>
    isChildOrder a b := by
  apply mergeSort_eq_insertionSort
  · exact fun a b c => Place.isBefore_trans
  · exact fun a b => Place.isBefore_total a.2.order b.2.order a.1 b.1

/-- What is below an idea, as it is found natively. -/
theorem ClosureStrategy.descendants_native_eq (store : Store) (root : Id) (inclusive : Bool) :
    (ClosureStrategy.native.descendants store root inclusive).result =
      let edges := store.edges .forward
      let found := Closure.followWithin (edges.length + 1) edges [root] []
      .ok ((if inclusive then found ++ [root] else found).insertionSort (· ≤ ·)).eraseDups := by
  have hfollow := Closure.follow_eq_followWithin (store.edges .forward) [root] [] _ (Nat.le_refl _)
  rw [List.length_singleton] at hfollow
  show Except.ok (store.nativeClosure root .forward inclusive) = _
  simp only [← hfollow, ← ascending_eq_insertionSort]
  refine congrArg Except.ok (ascending_congr fun id => ?_)
  cases inclusive <;> simp [Closure.native]

end Deliberation
