import Deliberation.Closure.Resolver
import Deliberation.Proofs.Closure.Edges
import Deliberation.Proofs.Store.Read

/-!
Closures in the store, told by the rows alone. Both strategies answer with the ideas at the ends of
paths of live links; how they look for them makes no difference. Nothing is assumed about the store:
links may form cycles, lead from an idea to itself, stand beside each other or have ends that are
missing.
-/

namespace Deliberation

/-- A link joins `near` to `far` when it is followed in a direction. -/
def Store.LinkRow.Joins (row : Store.LinkRow) (near far : Id) : Direction → Prop
  | .forward => row.source = near ∧ row.target = far
  | .backward => row.target = near ∧ row.source = far

namespace Store

variable {store : Store} {direction : Direction} {near far root : Id}

/-- A live link leads from `near` to `far`, which is a live idea. -/
def LeadsTo (store : Store) (direction : Direction) (near far : Id) : Prop :=
  (∃ link row, store.links.get? link = some row ∧ row.isLive ∧ row.Joins near far direction) ∧
    ∃ idea, store.ideas.get? far = some idea ∧ idea.isLive

/-- A path of live links, not an empty one, leads from `root` to `far`, and the ideas on it are
live, though `root` need not be. -/
def Reaches (store : Store) (direction : Direction) (root far : Id) : Prop :=
  Relation.TransGen (store.LeadsTo direction) root far

/-- The edges that are followed are the live links to live ideas. -/
theorem mem_edges_iff : (near, far) ∈ store.edges direction ↔ store.LeadsTo direction near far := by
  unfold edges LeadsTo
  rw [List.mem_filter, isLiveIdea_iff, List.mem_map]
  apply and_congr_left
  intro _
  constructor
  · rintro ⟨⟨link, row⟩, hlink, hends⟩
    obtain ⟨hrow, hlive⟩ := mem_liveLinks_iff.mp hlink
    refine ⟨link, row, hrow, hlive, ?_⟩
    cases direction with
    | forward => exact Prod.mk.inj hends
    | backward => exact Prod.mk.inj hends
  · rintro ⟨link, row, hrow, hlive, hends⟩
    refine ⟨(link, row), mem_liveLinks_iff.mpr ⟨hrow, hlive⟩, ?_⟩
    cases direction with
    | forward => exact Prod.ext hends.1 hends.2
    | backward => exact Prod.ext hends.1 hends.2

/-- Paths along these edges are the paths by which one idea is reached from another. -/
theorem path_edges_iff : Closure.Path (store.edges direction) root far ↔
    store.Reaches direction root far := by
  have hstep : (fun near far => (near, far) ∈ store.edges direction) = store.LeadsTo direction := by
    funext near far
    exact propext mem_edges_iff
  rw [Closure.Path, hstep, Reaches]

end Store

namespace Closure

theorem mem_including {inclusive : Bool} {roots found : List Id} {id : Id} :
    id ∈ including inclusive roots found ↔ id ∈ found ∨ (inclusive ∧ id ∈ roots) := by
  unfold including
  cases inclusive with
  | false => simp
  | true => simp

theorem including_congr {inclusive : Bool} {roots found others : List Id}
    (h : ∀ id, id ∈ found ↔ id ∈ others) :
    including inclusive roots found = including inclusive roots others := by
  unfold including
  cases inclusive with
  | false => exact ascending_congr h
  | true =>
    refine ascending_congr fun id => ?_
    simp only [if_true, List.mem_append, h id]

end Closure

namespace Store

variable {store : Store} {direction : Direction}

/-- The closure of some ideas as a list in order. -/
def IsClosureOf (store : Store) (direction : Direction) (roots : List Id) (inclusive : Bool)
    (ids : List Id) : Prop :=
  ids.Pairwise (· < ·) ∧
    ∀ id, id ∈ ids ↔ ∃ root ∈ roots, store.Reaches direction root id ∨ (inclusive ∧ id = root)

/-- A closure has no other list. -/
theorem IsClosureOf.eq {roots ids others : List Id} {inclusive : Bool}
    (h : store.IsClosureOf direction roots inclusive ids)
    (hother : store.IsClosureOf direction roots inclusive others) : ids = others :=
  eq_of_pairwise_lt h.1 hother.1 fun id => (h.2 id).trans (hother.2 id).symm

/-- The rounds of any search end, and they end with the closure of the roots. -/
theorem expansion_result (store : Store) (direction : Direction) (roots : List Id)
    (inclusive : Bool) :
    ∃ ids, (store.expansion roots direction inclusive).result = .ok ids ∧
      store.IsClosureOf direction roots inclusive ids := by
  refine ⟨_, rfl, ascending_pairwise _, fun id => ?_⟩
  rw [Closure.mem_including, Closure.mem_byRounds_iff]
  simp only [path_edges_iff]
  constructor
  · rintro (⟨root, hroot, hpath⟩ | ⟨hinclusive, hid⟩)
    · exact ⟨root, hroot, Or.inl hpath⟩
    · exact ⟨id, hid, Or.inr ⟨hinclusive, rfl⟩⟩
  · rintro ⟨root, hroot, hpath | ⟨hinclusive, rfl⟩⟩
    · exact Or.inl ⟨root, hroot, hpath⟩
    · exact Or.inr ⟨hinclusive, hroot⟩

/-- From one root both ways give the same list. -/
theorem nativeClosure_result (root : Id) (inclusive : Bool) :
    (store.closure root direction inclusive).result =
      (store.expansion [root] direction inclusive).result := by
  have hsame : store.nativeClosure root direction inclusive =
      Closure.including inclusive [root]
        (Closure.byRounds (store.edges direction) [root]).reached := by
    refine Closure.including_congr fun id => ?_
    rw [Closure.mem_native_iff, Closure.mem_byRounds_iff]
    simp
  exact congrArg Except.ok hsame

end Store

namespace ClosureStrategy

open Store

variable {store : Store} {inclusive : Bool}

/-- Whichever way the ideas below a root are found, they are those that the rounds find. -/
theorem descendants_result (strategy : ClosureStrategy) (root : Id) :
    (strategy.descendants store root inclusive).result =
      (store.expansion [root] .forward inclusive).result := by
  cases strategy with
  | native => exact nativeClosure_result root inclusive
  | fixedPoint => rfl

theorem ancestors_singleton_result (strategy : ClosureStrategy) (target : Id) :
    (strategy.ancestors store [target] inclusive).result =
      (store.expansion [target] .backward inclusive).result := by
  cases strategy with
  | native => exact nativeClosure_result target inclusive
  | fixedPoint => rfl

/-- A strategy that looks upward from several ideas at once finds what the rounds find. -/
theorem ancestors_result_of_many {strategy : ClosureStrategy} {targets : List Id}
    (h : strategy.looksFromMany) : (strategy.ancestors store targets inclusive).result =
      (store.expansion targets .backward inclusive).result := by
  cases strategy with
  | native => cases h
  | fixedPoint => rfl

/-- The answers for several targets are put together from the answers for each of them. -/
theorem ancestors_union (targets : List Id) :
    ∃ above, (fixedPoint.ancestors store targets inclusive).result = .ok above ∧
      above.Pairwise (· < ·) ∧
      ∀ id, id ∈ above ↔ ∃ target ∈ targets, ∃ single,
        (fixedPoint.ancestors store [target] inclusive).result = .ok single ∧ id ∈ single := by
  obtain ⟨above, habove, hordered, hmem⟩ := expansion_result store .backward targets inclusive
  refine ⟨above, habove, hordered, fun id => (hmem id).trans ?_⟩
  constructor
  · rintro ⟨target, htarget, hreached⟩
    obtain ⟨single, hsingle, -, hmemSingle⟩ :=
      expansion_result store .backward [target] inclusive
    refine ⟨target, htarget, single, hsingle, (hmemSingle id).mpr ?_⟩
    exact ⟨target, List.mem_singleton_self target, hreached⟩
  · rintro ⟨target, htarget, single, hanswer, hid⟩
    obtain ⟨other, hother, -, hmemOther⟩ :=
      expansion_result store .backward [target] inclusive
    obtain rfl : single = other := Except.ok.inj (hanswer.symm.trans hother)
    obtain ⟨root, hroot, hreached⟩ := (hmemOther id).mp hid
    obtain rfl := List.mem_singleton.mp hroot
    exact ⟨root, htarget, hreached⟩

/-- Both strategies answer alike from one idea, in both directions, and they find what paths of live
links lead to. Above no ideas there is nothing. Above several ideas only one of the strategies can
look; it finds what is above any of them. -/
theorem closures_are_reachability (store : Store) (inclusive : Bool) :
    (∀ root, ∃ below,
      (∀ strategy : ClosureStrategy, (strategy.descendants store root inclusive).result =
        .ok below) ∧
      below.Pairwise (· < ·) ∧
      ∀ id, id ∈ below ↔ store.Reaches .forward root id ∨ (inclusive ∧ id = root)) ∧
    (∀ strategy : ClosureStrategy, (strategy.ancestors store [] inclusive).result = .ok []) ∧
    (∀ target, ∃ above,
      (∀ strategy : ClosureStrategy,
        (strategy.ancestors store [target] inclusive).result = .ok above) ∧
      above.Pairwise (· < ·) ∧
      ∀ id, id ∈ above ↔ store.Reaches .backward target id ∨ (inclusive ∧ id = target)) ∧
    (∀ first second rest,
      (native.ancestors store (first :: second :: rest) inclusive).result =
        .error (.unsupported "ancestors" ("native closure resolves one target at a time, got " ++
          toString (first :: second :: rest).length))) ∧
    (∀ targets, ∃ above, (fixedPoint.ancestors store targets inclusive).result = .ok above ∧
      above.Pairwise (· < ·) ∧
      ∀ id, id ∈ above ↔ ∃ target ∈ targets, ∃ single,
        (fixedPoint.ancestors store [target] inclusive).result = .ok single ∧ id ∈ single) := by
  refine ⟨?_, ?_, ?_, fun _ _ _ => rfl, ancestors_union⟩
  · intro root
    obtain ⟨below, hbelow, hordered, hmem⟩ := expansion_result store .forward [root] inclusive
    refine ⟨below, fun strategy => (descendants_result strategy root).trans hbelow, hordered, ?_⟩
    simpa using hmem
  · intro strategy
    cases strategy with
    | native => rfl
    | fixedPoint =>
      obtain ⟨above, habove, -, hmem⟩ := expansion_result store .backward [] inclusive
      refine habove.trans (congrArg Except.ok ?_)
      exact List.eq_nil_iff_forall_not_mem.mpr fun id hid => by simpa using (hmem id).mp hid
  · intro target
    obtain ⟨above, habove, hordered, hmem⟩ := expansion_result store .backward [target] inclusive
    refine ⟨above, fun strategy => (ancestors_singleton_result strategy target).trans habove,
      hordered, ?_⟩
    simpa using hmem

end ClosureStrategy

end Deliberation
