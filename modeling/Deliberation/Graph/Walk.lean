import Deliberation.Attempt
import Deliberation.Graph.Basic
import Deliberation.Graph.WalkOrder

/-!
Walks through a graph. A walk shows every node that it reaches to a visitor, once when it comes to
the node and once when everything below the node is done. The visitor may cut a node, so that the
walk does not go on from there, and it may fail, which ends the walk at once.

A walk keeps a stack of frames, one for each node that has been entered and not yet left. Both
orders work on the same frames; they differ only in what a frame does next when it could either
visit another child or enter one that has been visited.
-/

namespace Deliberation

inductive Outcome (ρ : Type) where
  | proceed (value : ρ)
  | cut
deriving DecidableEq, Repr

def Outcome.value? {ρ : Type} : Outcome ρ → Option ρ
  | .proceed value => some value
  | .cut => none

/-- What a walk calls. A visitor works on a state `σ` of its own; its values have type `ρ`. -/
structure Visitor (σ ρ : Type) where
  /-- Called with an idea, its level and the value of the idea that it was reached from. -/
  visit : Idea → Nat → Option ρ → Attempt σ (Outcome ρ)
  /-- Called with an idea, its level, its own value and what its children came to. Says what the
  idea comes to, if anything. -/
  finish : Idea → Nat → Option ρ → List ρ → Attempt σ (Option ρ)

namespace Walk

variable {graph : Graph} {σ ρ : Type}

structure Frame (graph : Graph) (ρ : Type) where
  node : graph.Node
  level : Nat
  value : ρ
  children : List graph.Node
  /-- Children that have been visited, but neither entered nor left. -/
  waiting : List (graph.Node × Outcome ρ) := []
  results : List ρ := []

def Frame.enter (node : graph.Node) (level : Nat) (value : ρ) : Frame graph ρ :=
  { node, level, value, children := graph.children node }

def Frame.collect (frame : Frame graph ρ) (result : Option ρ) : Frame graph ρ :=
  { frame with results := frame.results ++ result.toList }

structure Progress (graph : Graph) (ρ : Type) where
  unseen : List graph.Node
  /-- The nodes that have been entered and not left, the innermost first. -/
  frames : List (Frame graph ρ)
  /-- What the node that was left last came to. -/
  result : Option ρ := none

inductive Next (graph : Graph) (ρ : Type) where
  | look (child : graph.Node) (frame : Frame graph ρ)
  /-- Enters a child that was visited, or leaves it if it was cut. -/
  | settle (child : graph.Node) (outcome : Outcome ρ) (frame : Frame graph ρ)
  | leave

/-- What a frame does next. The walk in depth enters a child as soon as it has been visited, the
other one visits all children first. -/
def Frame.next (order : WalkOrder) (frame : Frame graph ρ) : Next graph ρ :=
  match order, frame.children, frame.waiting with
  | _, [], [] => .leave
  | _, [], (child, outcome) :: waiting => .settle child outcome { frame with waiting }
  | .depthFirst, _ :: _, (child, outcome) :: waiting => .settle child outcome { frame with waiting }
  | .depthFirst, child :: children, [] => .look child { frame with children }
  | .breadthFirst, child :: children, _ => .look child { frame with children }

def Progress.leave (unseen : List graph.Node) (outer : List (Frame graph ρ)) (result : Option ρ) :
    Progress graph ρ :=
  match outer with
  | [] => ⟨unseen, [], result⟩
  | frame :: rest => ⟨unseen, frame.collect result :: rest, result⟩

/-- One step of a walk whose innermost frame is `frame`. -/
def step (visitor : Visitor σ ρ) (order : WalkOrder) (unseen : List graph.Node)
    (frame : Frame graph ρ) (outer : List (Frame graph ρ)) (result : Option ρ) :
    Attempt σ (Progress graph ρ) :=
  match frame.next order with
  | .look child frame =>
    if child ∈ unseen then do
      let outcome ← visitor.visit (graph.idea child) (frame.level + 1) (some frame.value)
      return ⟨unseen.erase child, { frame with waiting := frame.waiting ++ [(child, outcome)] } ::
        outer, result⟩
    else return ⟨unseen, frame :: outer, result⟩
  | .settle child (.proceed value) frame =>
    return ⟨unseen, .enter child (frame.level + 1) value :: frame :: outer, result⟩
  | .settle child .cut frame => do
    let came ← visitor.finish (graph.idea child) (frame.level + 1) none []
    return ⟨unseen, frame.collect came :: outer, result⟩
  | .leave => do
    let came ← visitor.finish (graph.idea frame.node) frame.level (some frame.value) frame.results
    return .leave unseen outer came

def waitingCount : List (Frame graph ρ) → Nat
  | [] => 0
  | frame :: rest => frame.waiting.length + waitingCount rest

/-- The number of children that have to be looked at, and of nodes that have to be left. -/
def openCount : List (Frame graph ρ) → Nat
  | [] => 0
  | frame :: rest => frame.children.length + 1 + openCount rest

/-- Looking at a child takes it from the children that have not been looked at, and none from those
that wait. -/
theorem look_of_next {order : WalkOrder} {frame after : Frame graph ρ} {child : graph.Node}
    (h : frame.next order = .look child after) :
    after.waiting = frame.waiting ∧ after.children.length + 1 = frame.children.length := by
  unfold Frame.next at h
  split at h <;> cases h
  · simp_all
  · simp_all

/-- A child that is entered or left does not wait any longer. -/
theorem settle_of_next {order : WalkOrder} {frame after : Frame graph ρ} {child : graph.Node}
    {outcome : Outcome ρ} (h : frame.next order = .settle child outcome after) :
    after.waiting.length + 1 = frame.waiting.length := by
  unfold Frame.next at h
  split at h <;> cases h
  · simp_all
  · simp_all

theorem waitingCount_leave (unseen : List graph.Node) (outer : List (Frame graph ρ))
    (came : Option ρ) :
    waitingCount (Progress.leave unseen outer came).frames = waitingCount outer := by
  cases outer <;> rfl

theorem openCount_leave (unseen : List graph.Node) (outer : List (Frame graph ρ))
    (came : Option ρ) : openCount (Progress.leave unseen outer came).frames = openCount outer := by
  cases outer <;> rfl

theorem unseen_leave (unseen : List graph.Node) (outer : List (Frame graph ρ)) (came : Option ρ) :
    (Progress.leave unseen outer came).unseen = unseen := by
  cases outer <;> rfl

/-- Every step leaves less to do: fewer nodes are unseen, or as many and fewer children wait, or as
many of both and fewer children have to be looked at and nodes to be left. -/
theorem step_lt {visitor : Visitor σ ρ} {order : WalkOrder} {unseen : List graph.Node}
    {frame : Frame graph ρ} {outer : List (Frame graph ρ)} {result : Option ρ} {s t : σ}
    {after : Progress graph ρ}
    (h : step visitor order unseen frame outer result s = (.ok after, t)) :
    Prod.Lex (· < ·) (Prod.Lex (· < ·) (· < ·))
      (after.unseen.length, waitingCount after.frames, openCount after.frames)
      (unseen.length, waitingCount (frame :: outer), openCount (frame :: outer)) := by
  unfold step at h
  cases hnext : frame.next order with
  | look child more =>
    obtain ⟨hwaiting, hchildren⟩ := look_of_next hnext
    simp only [hnext] at h
    by_cases hchild : child ∈ unseen
    · rw [if_pos hchild] at h
      obtain ⟨outcome, u, _, hrest⟩ := Attempt.ok_of_andThen h
      cases hrest
      apply Prod.Lex.left
      have hlength := List.length_erase_of_mem hchild
      have hpositive := List.length_pos_of_mem hchild
      simp only
      omega
    · rw [if_neg hchild] at h
      cases h
      apply Prod.Lex.right
      have hsame : waitingCount (more :: outer) = waitingCount (frame :: outer) := by
        simp [waitingCount, hwaiting]
      rw [hsame]
      apply Prod.Lex.right
      simp only [openCount]
      omega
  | settle child outcome more =>
    have hwaiting := settle_of_next hnext
    simp only [hnext] at h
    cases outcome with
    | proceed value =>
      cases h
      apply Prod.Lex.right
      apply Prod.Lex.left
      simp only [waitingCount, Frame.enter, List.length_nil]
      omega
    | cut =>
      obtain ⟨came, u, _, hrest⟩ := Attempt.ok_of_andThen h
      cases hrest
      apply Prod.Lex.right
      apply Prod.Lex.left
      simp only [waitingCount, Frame.collect]
      omega
  | leave =>
    simp only [hnext] at h
    obtain ⟨came, u, _, hrest⟩ := Attempt.ok_of_andThen h
    cases hrest
    rw [unseen_leave, waitingCount_leave, openCount_leave]
    apply Prod.Lex.right
    by_cases hempty : frame.waiting.length = 0
    · have hsame : waitingCount (frame :: outer) = waitingCount outer := by
        simp [waitingCount, hempty]
      rw [hsame]
      apply Prod.Lex.right
      simp only [openCount]
      omega
    · apply Prod.Lex.left
      simp only [waitingCount]
      omega

def run (visitor : Visitor σ ρ) (order : WalkOrder) : Progress graph ρ → Attempt σ (Option ρ)
  | ⟨_, [], result⟩ => fun s => (.ok result, s)
  | ⟨unseen, frame :: outer, result⟩ => fun s =>
    match _step : step visitor order unseen frame outer result s with
    | (.ok after, t) => run visitor order after t
    | (.error e, t) => (.error e, t)
termination_by progress =>
  (progress.unseen.length, waitingCount progress.frames, openCount progress.frames)
decreasing_by exact step_lt _step

end Walk

/-- Walks through a graph from the node of an idea. Says what that idea came to; without such a node
nothing is visited. -/
def Graph.walk {σ ρ : Type} (graph : Graph) (order : WalkOrder) (visitor : Visitor σ ρ)
    (root : Id) : Attempt σ (Option ρ) :=
  match graph.node? root with
  | none => return none
  | some node => do
    match ← visitor.visit (graph.idea node) 0 none with
    | .proceed value =>
      Walk.run visitor order ⟨graph.nodes.erase node, [.enter node 0 value], none⟩
    | .cut => visitor.finish (graph.idea node) 0 none []

end Deliberation
