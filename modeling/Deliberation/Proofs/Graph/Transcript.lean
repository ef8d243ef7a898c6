import Deliberation.Graph.Recorder
import Deliberation.Proofs.Graph.Coverage
import Mathlib.Order.Bounds.Basic

/-!
Transcripts of walks: the calls of a visitor, each with the answer to it. They are taken down
without a difference to the walk. A transcript shows that the two orders come to the same nodes,
namely to the least set of nodes that has the start in it and, with a node that is not cut, all its
children; and that both finish what they visit.
-/

namespace Deliberation

inductive Exchange (ρ : Type) where
  | visited (idea : Idea) (level : Nat) (above : Option ρ) (answer : Except Error (Outcome ρ))
  | finished (idea : Idea) (level : Nat) (own : Option ρ) (below : List ρ)
      (answer : Except Error (Option ρ))

def Exchange.call {ρ : Type} : Exchange ρ → Callback ρ
  | .visited idea level above _ => .visited idea level above
  | .finished idea level own below _ => .finished idea level own below

/-- The visitor that also takes down its calls and its answers to them. -/
def Visitor.transcribed {σ ρ : Type} (visitor : Visitor σ ρ) :
    Visitor (σ × List (Exchange ρ)) ρ where
  visit idea level above := fun (state, transcript) =>
    match visitor.visit idea level above state with
    | (answer, after) => (answer, (after, transcript ++ [.visited idea level above answer]))
  finish idea level own below := fun (state, transcript) =>
    match visitor.finish idea level own below state with
    | (answer, after) => (answer, (after, transcript ++ [.finished idea level own below answer]))

namespace Visitor

variable {σ ρ : Type}

/-- Taking down a walk makes no difference to it. -/
theorem transcribed_follows (graph : Graph) (visitor : Visitor σ ρ) :
    visitor.transcribed.Follows graph Prod.fst visitor :=
  ⟨fun _ _ _ _ => rfl, fun _ _ _ _ _ => rfl⟩

theorem transcribed_records (visitor : Visitor σ ρ) :
    visitor.transcribed.Records fun taken => taken.2.map Exchange.call :=
  ⟨fun _ _ _ _ => List.map_append, fun _ _ _ _ _ => List.map_append⟩

theorem transcribed_visit {visitor : Visitor σ ρ} {idea : Idea} {level : Nat} {above : Option ρ}
    {taken : σ × List (Exchange ρ)} {answer : Except Error (Outcome ρ)} {after : σ}
    (h : visitor.visit idea level above taken.1 = (answer, after)) :
    visitor.transcribed.visit idea level above taken =
      (answer, after, taken.2 ++ [.visited idea level above answer]) := by
  simp only [Visitor.transcribed, h]

theorem transcribed_finish {visitor : Visitor σ ρ} {idea : Idea} {level : Nat} {own : Option ρ}
    {below : List ρ} {taken : σ × List (Exchange ρ)} {answer : Except Error (Option ρ)}
    {after : σ} (h : visitor.finish idea level own below taken.1 = (answer, after)) :
    visitor.transcribed.finish idea level own below taken =
      (answer, after, taken.2 ++ [.finished idea level own below answer]) := by
  simp only [Visitor.transcribed, h]

/-- Taking down what a visitor does changes neither what it cuts nor that it never fails. -/
theorem CutsBy.transcribed {visitor : Visitor σ ρ} {isCut : Idea → Prop}
    (h : visitor.CutsBy isCut) : visitor.transcribed.CutsBy isCut where
  visit idea level above taken := by
    obtain ⟨outcome, after, hvisit, houtcome⟩ := h.visit idea level above taken.1
    exact ⟨outcome, _, transcribed_visit hvisit, houtcome⟩
  finish idea level own below taken := by
    obtain ⟨came, after, hfinish⟩ := h.finish idea level own below taken.1
    exact ⟨came, _, transcribed_finish hfinish⟩

end Visitor

/-- A recorder that is not told to fail cuts the ideas that it is told to cut. -/
theorem Recorder.visitor_cutsBy {recorder : Recorder} (hvisit : recorder.failVisit = none)
    (hfinish : recorder.failEnd = none) :
    recorder.visitor.CutsBy fun idea => idea.id ∈ recorder.cut where
  visit idea level above calls := by
    refine ⟨if recorder.cut.contains idea.id then .cut else .proceed [idea.id],
      calls ++ [.visited idea.id level above], Attempt.bind_eq_ok_iff.mpr ⟨(), _, rfl, ?_⟩, ?_⟩
    · rw [hvisit, if_neg (Option.some_ne_none idea.id).symm]
      split
      · rfl
      · rfl
    · simp only [List.contains_iff_mem]
      split
      · simp_all [Outcome.value?]
      · simp_all [Outcome.value?]
  finish idea level own below calls := by
    refine ⟨recorder.answer idea.id own below, calls ++ [.finished idea.id level own below],
      Attempt.bind_eq_ok_iff.mpr ⟨(), _, rfl, ?_⟩⟩
    rw [hfinish, if_neg (Option.some_ne_none idea.id).symm]
    rfl

open Walk

namespace Graph

variable {σ ρ : Type} {graph : Graph} {isCut : Idea → Prop} {root : graph.Node}

/-- What a walk comes to while its visitor takes it down. -/
theorem walk_of_transcribed {order : WalkOrder} {visitor : Visitor σ ρ} {id : Id} {state after : σ}
    {came : Option ρ} {transcript : List (Exchange ρ)}
    (h : graph.walk order visitor.transcribed id (state, []) = (.ok came, after, transcript)) :
    graph.walk order visitor id state = (.ok came, after) := by
  have hfollows := Graph.walk_follows (visitor.transcribed_follows graph) order id (state, [])
  rw [h] at hfollows
  exact hfollows.symm

/-- A set of nodes has a root in it, and with a node that is not cut it has the children of that
node. -/
def CarriesOn (graph : Graph) (isCut : Idea → Prop) (root : graph.Node) (nodes : Set graph.Node) :
    Prop :=
  root ∈ nodes ∧
    ∀ near ∈ nodes, ¬ isCut (graph.idea near) → ∀ far ∈ graph.children near, far ∈ nodes

/-- The nodes that can be reached from a root are the least that a walk may keep to. -/
theorem isLeast_carriesOn : IsLeast {nodes | graph.CarriesOn isCut root nodes}
    {node | Relation.ReflTransGen (Leads graph isCut) root node} := by
  constructor
  · exact ⟨.refl, fun near hnear huncut far hfar => Relation.ReflTransGen.tail hnear ⟨huncut, hfar⟩⟩
  · intro nodes hnodes node hpath
    induction hpath with
    | refl => exact hnodes.1
    | tail _ hlast ih => exact hnodes.2 _ ih hlast.1 _ hlast.2

/-- Walks in both orders visit the same nodes of a graph, each of them once, and finish these nodes,
each of them once: the least set of nodes that has the root in it and, with a node that is not cut,
the children of that node. Nothing is assumed about the ideas and links that the graph is made
of. -/
theorem walks_visit_least (ideas : List Idea) (links : List Link) {visitor : Visitor σ ρ}
    {isCut : Idea → Prop} (hcuts : visitor.CutsBy isCut) {root : Id}
    {node : (ofParts ideas links).Node} (hroot : (ofParts ideas links).node? root = some node)
    (state : σ) :
    let graph := ofParts ideas links
    ∃ nodes, IsLeast {nodes | graph.CarriesOn isCut node nodes} nodes ∧
      ∀ order : WalkOrder, ∃ came after transcript visited finished,
        graph.walk order visitor.transcribed root (state, []) = (.ok came, after, transcript) ∧
        graph.walk order visitor root state = (.ok came, after) ∧
        Tells graph (transcript.map Exchange.call) visited finished ∧
        visited.Nodup ∧ (∀ other, other ∈ visited ↔ other ∈ nodes) ∧
        finished.Nodup ∧ ∀ other, other ∈ finished ↔ other ∈ nodes := by
  intro graph
  refine ⟨_, isLeast_carriesOn, fun order => ?_⟩
  obtain ⟨came, ⟨after, transcript⟩, visited, finished, hwalk, hnodup, hreached, hperm, htold⟩ :=
    walk_covers hcuts.transcribed visitor.transcribed_records order hroot (s := (state, [])) rfl
  exact ⟨came, after, transcript, visited, finished, hwalk, walk_of_transcribed hwalk,
    htold, hnodup,
    hreached, hperm.nodup_iff.mpr hnodup, fun other => hperm.mem_iff.trans (hreached other)⟩

/-- Four ideas; the first two lead to each other and to themselves, the last one can only be reached
by way of the third. -/
def roundabout : List Idea × List Link :=
  let now : Timestamp := ⟨0, 0⟩
  let link (id source target : Id) : Link := ⟨id, source, target, .zero, inclusionType, now, none⟩
  ([1, 2, 3, 4].map fun id => ⟨id, 1, .idea, none, none, none, false, now, now, none, 1⟩,
    [link 1 1 2, link 2 2 1, link 3 2 2, link 4 2 3, link 5 1 3, link 6 3 4])

/-- From the first idea, with the third one cut, both orders visit the same ideas. -/
theorem roundabout_orders_agree :
    let graph := ofParts roundabout.1 roundabout.2
    let visitor := (Recorder.visitor { cut := [3] }).transcribed
    ∃ depth breadth, (graph.walk .depthFirst visitor 1 ([], [])).2.2 = depth ∧
      (graph.walk .breadthFirst visitor 1 ([], [])).2.2 = breadth ∧
      ((depth.map Exchange.call).filterMap Callback.visitedIdea?).Perm
        ((breadth.map Exchange.call).filterMap Callback.visitedIdea?) := by
  intro graph visitor
  have hcuts : (Recorder.visitor { cut := [3] }).CutsBy fun idea => idea.id ∈ [3] :=
    Recorder.visitor_cutsBy rfl rfl
  have hroot : graph.node? 1 = some ⟨0, by decide⟩ := rfl
  obtain ⟨nodes, -, hwalks⟩ := walks_visit_least roundabout.1 roundabout.2 hcuts hroot []
  obtain ⟨_, _, depth, first, _, hdepth, -, hfirst, hdistinct, hmem, -⟩ := hwalks .depthFirst
  obtain ⟨_, _, breadth, other, _, hbreadth, -, hother, hotherDistinct, hotherMem, -⟩ :=
    hwalks .breadthFirst
  refine ⟨depth, breadth, congrArg (·.2.2) hdepth, congrArg (·.2.2) hbreadth, ?_⟩
  have hperm : first.Perm other := (List.perm_ext_iff_of_nodup hdistinct hotherDistinct).mpr
    fun node => (hmem node).trans (hotherMem node).symm
  rw [hfirst.1, hother.1]
  exact hperm.map graph.idea

end Graph

end Deliberation
