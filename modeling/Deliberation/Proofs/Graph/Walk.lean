import Deliberation.Graph.Visit
import Deliberation.Proofs.Attempt

/-!
What a walk does step by step, and what it is told by its visitor. Two visitors that answer alike on
the ideas of a graph, and keep states that correspond to each other, are led through the same walk.
In particular it makes no difference whether the calls of a walk are written down.
-/

namespace Deliberation

/-! ## Computations that correspond -/

namespace Attempt

variable {σ τ α β : Type}

/-- A computation does the same as another one on the states that correspond to its own. -/
def Follows (f : τ → σ) (x : Attempt τ α) (y : Attempt σ α) : Prop :=
  ∀ t, Prod.map id f (x t) = y (f t)

theorem Follows.yield (f : τ → σ) (a : α) : Follows f (pure a) (pure a) := fun _ => rfl

theorem Follows.bind {f : τ → σ} {x : Attempt τ α} {y : Attempt σ α} {next : α → Attempt τ β}
    {others : α → Attempt σ β} (h : Follows f x y) (hnext : ∀ a, Follows f (next a) (others a)) :
    Follows f (x >>= next) (y >>= others) := by
  intro t
  have ht := h t
  change Prod.map id f (x.andThen next t) = y.andThen others (f t)
  unfold andThen
  rw [← ht]
  rcases x t with ⟨_ | a, u⟩
  · rfl
  · exact hnext a u

end Attempt

structure Visitor.Follows {σ τ ρ : Type} (graph : Graph) (f : τ → σ) (visitor : Visitor τ ρ)
    (other : Visitor σ ρ) : Prop where
  visit : ∀ (node : graph.Node) level above, Attempt.Follows f
    (visitor.visit (graph.idea node) level above) (other.visit (graph.idea node) level above)
  finish : ∀ (node : graph.Node) level own below, Attempt.Follows f
    (visitor.finish (graph.idea node) level own below)
    (other.finish (graph.idea node) level own below)

namespace Walk

variable {graph : Graph} {σ τ ρ : Type} {f : τ → σ} {visitor : Visitor τ ρ} {other : Visitor σ ρ}

/-- Visitors that do the same on the ideas of a graph make a step do the same. -/
theorem step_follows (h : visitor.Follows graph f other) (order : WalkOrder)
    (unseen : List graph.Node) (frame : Frame graph ρ) (outer : List (Frame graph ρ))
    (result : Option ρ) :
    Attempt.Follows f (step visitor order unseen frame outer result)
      (step other order unseen frame outer result) := by
  unfold step
  split
  · split
    · exact (h.visit _ _ _).bind fun _ => .yield f _
    · exact .yield f _
  · exact .yield f _
  · exact (h.finish _ _ _ _).bind fun _ => .yield f _
  · exact (h.finish _ _ _ _).bind fun _ => .yield f _

/-- What is left of a walk is its next step and then the rest. -/
theorem run_cons (order : WalkOrder) (unseen : List graph.Node) (frame : Frame graph ρ)
    (outer : List (Frame graph ρ)) (result : Option ρ) :
    run visitor order ⟨unseen, frame :: outer, result⟩ =
      step visitor order unseen frame outer result >>= run visitor order := by
  funext t
  change _ = (step visitor order unseen frame outer result).andThen (run visitor order) t
  rw [run, Attempt.andThen]
  dsimp only
  split
  · rename_i hstep
    split
    · rename_i hagain
      cases hagain.symm.trans hstep
      rfl
    · rename_i hagain
      cases hagain.symm.trans hstep
  · rename_i hstep
    split
    · rename_i hagain
      cases hagain.symm.trans hstep
    · rename_i hagain
      cases hagain.symm.trans hstep
      rfl

/-- By induction on the steps, walks with visitors that do the same do the same. -/
theorem run_follows (h : visitor.Follows graph f other) (order : WalkOrder)
    (progress : Progress graph ρ) :
    Attempt.Follows f (run visitor order progress) (run other order progress) := by
  induction progress using run.induct visitor order with
  | case1 unseen result =>
    rw [run, run]
    exact fun _ => rfl
  | case2 unseen frame outer result ih =>
    intro t
    have hstep := step_follows h order unseen frame outer result t
    rw [run_cons, run_cons]
    change Prod.map id f (Attempt.andThen _ _ t) = Attempt.andThen _ _ (f t)
    unfold Attempt.andThen
    rw [← hstep]
    rcases hdone : step visitor order unseen frame outer result t with ⟨_ | after, u⟩
    · rfl
    · exact ih t after u hdone u

end Walk

/-- Visitors that do the same are led through the same walk. -/
theorem Graph.walk_follows {graph : Graph} {σ τ ρ : Type} {f : τ → σ} {visitor : Visitor τ ρ}
    {other : Visitor σ ρ} (h : visitor.Follows graph f other) (order : WalkOrder) (root : Id) :
    Attempt.Follows f (graph.walk order visitor root) (graph.walk order other root) := by
  unfold Graph.walk
  split
  · exact .yield f none
  · refine (h.visit _ _ _).bind fun outcome => ?_
    cases outcome with
    | proceed value => exact Walk.run_follows h order _
    | cut => exact h.finish _ _ _ _

/-! ## Failures -/

structure Visitor.FailsOnly {σ ρ : Type} (visitor : Visitor σ ρ) (kind : Error → Prop) : Prop where
  visit : ∀ idea level above, (visitor.visit idea level above).FailsOnly kind
  finish : ∀ idea level own below, (visitor.finish idea level own below).FailsOnly kind

namespace Walk

variable {graph : Graph} {σ ρ : Type} {visitor : Visitor σ ρ} {kind : Error → Prop}

theorem step_failsOnly (h : visitor.FailsOnly kind) (order : WalkOrder) (unseen : List graph.Node)
    (frame : Frame graph ρ) (outer : List (Frame graph ρ)) (result : Option ρ) :
    (step visitor order unseen frame outer result).FailsOnly kind := by
  unfold step
  split
  · split
    · exact (h.visit _ _ _).bind fun _ => Attempt.failsOnly_pure kind _
    · exact Attempt.failsOnly_pure kind _
  · exact Attempt.failsOnly_pure kind _
  · exact (h.finish _ _ _ _).bind fun _ => Attempt.failsOnly_pure kind _
  · exact (h.finish _ _ _ _).bind fun _ => Attempt.failsOnly_pure kind _

theorem run_failsOnly (h : visitor.FailsOnly kind) (order : WalkOrder)
    (progress : Progress graph ρ) : (run visitor order progress).FailsOnly kind := by
  induction progress using run.induct visitor order with
  | case1 unseen result =>
    rw [run]
    exact Attempt.failsOnly_pure kind result
  | case2 unseen frame outer result ih =>
    intro s
    rw [run_cons]
    exact Attempt.failsOnly_bind (step_failsOnly h order unseen frame outer result s)
      fun after t hstep => ih s after t hstep t

end Walk

/-- A walk fails only with what its visitor fails with. -/
theorem Graph.walk_failsOnly {graph : Graph} {σ ρ : Type} {visitor : Visitor σ ρ}
    {kind : Error → Prop} (h : visitor.FailsOnly kind) (order : WalkOrder) (root : Id) :
    (graph.walk order visitor root).FailsOnly kind := by
  unfold Graph.walk
  split
  · exact Attempt.failsOnly_pure kind none
  · refine (h.visit _ _ _).bind fun outcome => ?_
    cases outcome with
    | proceed value => exact Walk.run_failsOnly h order _
    | cut => exact h.finish _ _ _ _

/-! ## Invariants -/

structure Visitor.KeepsBelow {σ ρ : Type} (visitor : Visitor σ ρ) (P : σ → Prop) : Prop where
  visit : ∀ idea level above, (visitor.visit idea (level + 1) above).Keeps P
  finish : ∀ idea level own below, (visitor.finish idea level own below).Keeps P

namespace Walk

variable {graph : Graph} {σ ρ : Type} {visitor : Visitor σ ρ} {P : σ → Prop}

theorem step_keeps (h : visitor.KeepsBelow P) (order : WalkOrder) (unseen : List graph.Node)
    (frame : Frame graph ρ) (outer : List (Frame graph ρ)) (result : Option ρ) :
    (step visitor order unseen frame outer result).Keeps P := by
  unfold step
  split
  · split
    · exact (h.visit _ _ _).bind fun _ => Attempt.keeps_pure P _
    · exact Attempt.keeps_pure P _
  · exact Attempt.keeps_pure P _
  · exact (h.finish _ _ _ _).bind fun _ => Attempt.keeps_pure P _
  · exact (h.finish _ _ _ _).bind fun _ => Attempt.keeps_pure P _

theorem run_keeps (h : visitor.KeepsBelow P) (order : WalkOrder) (progress : Progress graph ρ) :
    (run visitor order progress).Keeps P := by
  induction progress using run.induct visitor order with
  | case1 unseen result =>
    rw [run]
    exact Attempt.keeps_pure P result
  | case2 unseen frame outer result ih =>
    intro s hs
    have hstep := step_keeps h order unseen frame outer result s hs
    rw [run_cons]
    change P (Attempt.andThen _ _ s).2
    unfold Attempt.andThen
    rcases hdone : step visitor order unseen frame outer result s with ⟨_ | after, t⟩
    · rw [hdone] at hstep
      exact hstep
    · rw [hdone] at hstep
      exact ih s after t hdone t hstep

end Walk

/-- What holds after the first call of a walk, and is kept by all calls below, holds at the end. -/
theorem Graph.walk_keeps {graph : Graph} {σ ρ : Type} {visitor : Visitor σ ρ} {P : σ → Prop}
    (h : visitor.KeepsBelow P) (order : WalkOrder) {root : Id} {node : graph.Node}
    (hnode : graph.node? root = some node) {s : σ}
    (hfirst : P (visitor.visit (graph.idea node) 0 none s).2) :
    P (graph.walk order visitor root s).2 := by
  unfold Graph.walk
  simp only [hnode]
  change P (Attempt.andThen _ _ s).2
  unfold Attempt.andThen
  rcases hvisit : visitor.visit (graph.idea node) 0 none s with ⟨_ | outcome, t⟩
  · rw [hvisit] at hfirst
    exact hfirst
  · rw [hvisit] at hfirst
    cases outcome with
    | proceed value => exact Walk.run_keeps h order _ t hfirst
    | cut => exact h.finish _ _ _ _ t hfirst

/-! ## Calls -/

inductive Callback (ρ : Type) where
  | visited (idea : Idea) (level : Nat) (above : Option ρ)
  | finished (idea : Idea) (level : Nat) (own : Option ρ) (below : List ρ)

namespace Callback

variable {ρ : Type}

def visitedIdea? : Callback ρ → Option Idea
  | .visited idea _ _ => some idea
  | .finished .. => none

def finishedIdea? : Callback ρ → Option Idea
  | .visited .. => none
  | .finished idea _ _ _ => some idea

end Callback

/-- The visitor that also writes down its calls, each of them before it is carried out. -/
def Visitor.recorded {σ ρ : Type} (visitor : Visitor (Journaled σ) ρ) :
    Visitor (Journaled (σ × List (Callback ρ))) ρ where
  visit idea level above := fun ⟨(state, calls), entries⟩ =>
    match visitor.visit idea level above ⟨state, entries⟩ with
    | (outcome, after) =>
      (outcome, ⟨(after.state, calls ++ [.visited idea level above]), after.entries⟩)
  finish idea level own below := fun ⟨(state, calls), entries⟩ =>
    match visitor.finish idea level own below ⟨state, entries⟩ with
    | (came, after) =>
      (came, ⟨(after.state, calls ++ [.finished idea level own below]), after.entries⟩)

structure Visitor.Records {σ ρ : Type} (visitor : Visitor σ ρ) (calls : σ → List (Callback ρ)) :
    Prop where
  visit : ∀ idea level above s,
    calls (visitor.visit idea level above s).2 = calls s ++ [.visited idea level above]
  finish : ∀ idea level own below s,
    calls (visitor.finish idea level own below s).2 = calls s ++ [.finished idea level own below]

def Journaled.calls {σ ρ : Type} (journaled : Journaled (σ × List (Callback ρ))) :
    List (Callback ρ) :=
  journaled.state.2

def Journaled.withoutCalls {σ ρ : Type} (journaled : Journaled (σ × List (Callback ρ))) :
    Journaled σ :=
  ⟨journaled.state.1, journaled.entries⟩

theorem Visitor.recorded_records {σ ρ : Type} (visitor : Visitor (Journaled σ) ρ) :
    visitor.recorded.Records Journaled.calls :=
  ⟨fun _ _ _ _ => rfl, fun _ _ _ _ _ => rfl⟩

theorem Visitor.recorded_follows {σ ρ : Type} (graph : Graph) (visitor : Visitor (Journaled σ) ρ) :
    visitor.recorded.Follows graph Journaled.withoutCalls visitor :=
  ⟨fun _ _ _ _ => rfl, fun _ _ _ _ _ => rfl⟩

/-- Writing down the calls changes neither what a walk comes to nor what it logs. -/
theorem Store.visit_recorded {σ ρ : Type} (store : Store) (root : Id) (order : WalkOrder)
    (visitor : Visitor (Journaled σ) ρ) (state : σ) :
    Prod.map id Prod.fst (store.visit root order visitor.recorded (state, [])) =
      store.visit root order visitor state := by
  unfold Store.visit
  cases store.graphAround root with
  | error e => rfl
  | ok around =>
    cases around with
    | none => rfl
    | some graph =>
      let loaded : List Entry := [⟨[], .snapshotLoaded graph.ideaCount graph.linkCount⟩]
      have hwalk : graph.walk order visitor root ⟨state, loaded⟩ =
        Prod.map id Journaled.withoutCalls
          (graph.walk order visitor.recorded root ⟨(state, []), loaded⟩) :=
        (Graph.walk_follows (visitor.recorded_follows graph) order root ⟨(state, []), loaded⟩).symm
      simp only [loaded] at hwalk
      simp only [hwalk]
      rfl

end Deliberation
