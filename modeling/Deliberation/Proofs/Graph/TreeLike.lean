import Deliberation.Proofs.Graph.Tree
import Mathlib.Data.Fintype.EquivFin
import Mathlib.Data.List.Permutation

/-!
Graphs that are trees but for parallel links and for links back to the root. There the tree that a
walk grows is the one of the graph itself, whatever the order of the walk. So a visitor that answers
by its arguments alone makes both walks come to the same. The tree is there before the walk begins,
and the walk is followed down it.
-/

namespace Deliberation

structure Answers (ρ : Type) where
  visit : Idea → Nat → Option ρ → Outcome ρ
  finish : Idea → Nat → Option ρ → List ρ → Option ρ

def Answers.visitor {ρ : Type} (answers : Answers ρ) : Visitor Unit ρ where
  visit idea level above := return answers.visit idea level above
  finish idea level own below := return answers.finish idea level own below

theorem Answers.visit_visitor {ρ : Type} (answers : Answers ρ) (idea : Idea) (level : Nat)
    (above : Option ρ) (s : Unit) :
    answers.visitor.visit idea level above s = (.ok (answers.visit idea level above), s) :=
  rfl

structure Visitor.AnswersBy {σ ρ : Type} (visitor : Visitor σ ρ) (answers : Answers ρ) : Prop where
  visit : ∀ idea level above s, (visitor.visit idea level above s).1 =
    .ok (answers.visit idea level above)
  finish : ∀ idea level own below s,
    (visitor.finish idea level own below s).1 = .ok (answers.finish idea level own below)

theorem Visitor.AnswersBy.follows {σ ρ : Type} {visitor : Visitor σ ρ} {answers : Answers ρ}
    (h : visitor.AnswersBy answers) (graph : Graph) :
    visitor.Follows graph (fun _ => ()) answers.visitor :=
  ⟨fun node level above s => Prod.ext (h.visit (graph.idea node) level above s) rfl,
    fun node level own below s => Prod.ext (h.finish (graph.idea node) level own below s) rfl⟩

def Recorder.answers (recorder : Recorder) : Answers (List Id) where
  visit idea _ _ := if recorder.cut.contains idea.id then .cut else .proceed [idea.id]
  finish idea _ own below := recorder.answer idea.id own below

/-- A recorder that is not told to fail answers by its arguments alone, although it writes down its
calls. -/
theorem Recorder.visitor_answersBy {recorder : Recorder} (hvisit : recorder.failVisit = none)
    (hfinish : recorder.failEnd = none) : recorder.visitor.AnswersBy recorder.answers where
  visit idea level above calls := by
    have hanswer : recorder.visitor.visit idea level above calls =
        (.ok (recorder.answers.visit idea level above),
          calls ++ [.visited idea.id level above]) := by
      refine Attempt.bind_eq_ok_iff.mpr ⟨(), _, rfl, ?_⟩
      rw [hvisit, if_neg (Option.some_ne_none idea.id).symm]
      cases hcut : recorder.cut.contains idea.id with
      | false =>
        simp only [answers, hcut]
        rfl
      | true =>
        simp only [answers, hcut]
        rfl
    rw [hanswer]
  finish idea level own below calls := by
    have hanswer : recorder.visitor.finish idea level own below calls =
        (.ok (recorder.answers.finish idea level own below),
          calls ++ [.finished idea.id level own below]) := by
      refine Attempt.bind_eq_ok_iff.mpr ⟨(), _, rfl, ?_⟩
      rw [hfinish, if_neg (Option.some_ne_none idea.id).symm]
      rfl
    rw [hanswer]

theorem nodup_eraseDups {α : Type} [DecidableEq α] (xs : List α) : xs.eraseDups.Nodup := by
  cases xs with
  | nil => exact List.nodup_nil
  | cons x rest =>
    rw [List.eraseDups_cons, List.nodup_cons]
    refine ⟨fun hmem => ?_, nodup_eraseDups _⟩
    rw [List.mem_eraseDups, List.mem_filter] at hmem
    simp at hmem
termination_by xs.length
decreasing_by exact Nat.lt_succ_of_le (List.length_filter_le _ rest)

namespace Graph

variable {graph : Graph} {root near far other node : graph.Node}

def Reached (graph : Graph) : graph.Node → graph.Node → Prop :=
  Relation.ReflTransGen fun near far => far ∈ graph.children near

/-- Each node that can be reached from a root, but for the root, has exactly one parent that can be
reached. More than one link may lead from the parent to the node, and links may lead back to the
root. -/
def IsTreeLike (graph : Graph) (root : graph.Node) : Prop :=
  ∀ node, graph.Reached root node → node ≠ root →
    ∃! parent, graph.Reached root parent ∧ node ∈ graph.children parent

/-- A child of a node that can be reached from a root, other than the root. -/
def Below (graph : Graph) (root near far : graph.Node) : Prop :=
  graph.Reached root near ∧ far ∈ graph.children near ∧ far ≠ root

/-- The children of a node, each of them once and the root left out. -/
def offspring (graph : Graph) (root node : graph.Node) : List graph.Node :=
  ((graph.children node).filter fun child => child ≠ root).eraseDups

theorem mem_offspring_iff :
    far ∈ graph.offspring root near ↔ far ∈ graph.children near ∧ far ≠ root := by
  rw [offspring, List.mem_eraseDups, List.mem_filter, decide_eq_true_eq]

theorem below_of_mem_offspring (hnear : graph.Reached root near)
    (h : far ∈ graph.offspring root near) : graph.Below root near far := by
  obtain ⟨hlink, hother⟩ := mem_offspring_iff.mp h
  exact ⟨hnear, hlink, hother⟩

theorem Below.reached (h : graph.Below root near far) : graph.Reached root far := h.1.tail h.2.1

/-- It is enough that links that lead to the same node come from the same node, unless they lead to
the root. -/
theorem isTreeLike_of_edges (h : ∀ edge ∈ graph.edges, ∀ again ∈ graph.edges, edge.target ≠ root →
    edge.target = again.target → edge.source = again.source) : graph.IsTreeLike root := by
  have hedge {near far : graph.Node} : far ∈ graph.children near ↔
      ∃ edge ∈ graph.edges, edge.source = near ∧ edge.target = far := by
    simp [children, and_assoc]
  intro node hreached hother
  obtain hsame | ⟨parent, hparent, hlink⟩ := hreached.cases_tail
  · exact absurd hsame hother
  · refine ⟨parent, ⟨hparent, hlink⟩, fun again hagain => ?_⟩
    obtain ⟨first, hfirst, rfl, rfl⟩ := hedge.mp hlink
    obtain ⟨second, hsecond, rfl, htarget⟩ := hedge.mp hagain.2
    exact (h first hfirst second hsecond hother htarget.symm).symm

namespace IsTreeLike

theorem below_unique (h : graph.IsTreeLike root) (hnear : graph.Below root near node)
    (hfar : graph.Below root far node) : near = far :=
  (h node hnear.reached hnear.2.2).unique ⟨hnear.1, hnear.2.1⟩ ⟨hfar.1, hfar.2.1⟩

/-- No node is below itself: the way to it from the root would have to lead round a circle that has
no entrance. -/
theorem not_below_itself (h : graph.IsTreeLike root) (hnode : graph.Reached root node) :
    ¬ Relation.TransGen (graph.Below root) node node := by
  intro hcircle
  induction hnode with
  | refl =>
    obtain ⟨_, _, hlast⟩ := Relation.TransGen.tail'_iff.mp hcircle
    exact hlast.2.2 rfl
  | @tail near far hnear hlink ih =>
    obtain ⟨parent, hpath, hlast⟩ := Relation.TransGen.tail'_iff.mp hcircle
    have hbelow : graph.Below root near far := ⟨hnear, hlink, hlast.2.2⟩
    obtain rfl := h.below_unique hlast hbelow
    exact ih (Relation.TransGen.head' hbelow hpath)

/-- In a graph that is like a tree no path goes down for ever. -/
theorem wellFounded_below (h : graph.IsTreeLike root) :
    WellFounded (Function.swap (graph.Below root)) := by
  have htrans : IsTrans graph.Node (Relation.TransGen (Function.swap (graph.Below root))) :=
    ⟨fun _ _ _ => Relation.TransGen.trans⟩
  have hirrefl : Std.Irrefl (Relation.TransGen (Function.swap (graph.Below root))) := by
    constructor
    intro node hcircle
    have hbelow := Relation.transGen_swap.mp hcircle
    obtain ⟨_, hfirst, -⟩ := Relation.TransGen.head'_iff.mp hbelow
    exact h.not_below_itself hfirst.1 hbelow
  exact Subrelation.wf Relation.TransGen.single (Finite.wellFounded_of_trans_of_irrefl _)

/-- What is below two different children of a node is not the same. A way from one to the other
would have to come through their parent. -/
theorem below_disjoint (h : graph.IsTreeLike root) (hfirst : graph.Below root near far)
    (hsecond : graph.Below root near other) (hne : far ≠ other)
    (hleft : Relation.ReflTransGen (graph.Below root) far node) :
    ¬ Relation.ReflTransGen (graph.Below root) other node := by
  have hapart {a b : graph.Node} (ha : graph.Below root near a) (hb : graph.Below root near b)
    (hab : a ≠ b) :
      ¬ Relation.ReflTransGen (graph.Below root) a b := by
    intro hpath
    obtain rfl | ⟨parent, hparent, hlast⟩ := hpath.cases_tail
    · exact hab rfl
    · obtain rfl := h.below_unique hlast hb
      exact h.not_below_itself ha.1 (Relation.TransGen.head' ha hparent)
  intro hright
  have hunique : Relator.RightUnique (Function.swap (graph.Below root)) :=
    fun _ _ _ ha hb => h.below_unique ha hb
  rcases Relation.ReflTransGen.total_of_right_unique hunique (Relation.reflTransGen_swap.mpr hleft)
    (Relation.reflTransGen_swap.mpr hright) with hpath | hpath
  · exact hapart hsecond hfirst hne.symm (Relation.reflTransGen_swap.mp hpath)
  · exact hapart hfirst hsecond hne (Relation.reflTransGen_swap.mp hpath)

end IsTreeLike

end Graph

namespace Walk

variable {graph : Graph} {ρ : Type} {answers : Answers ρ} {root : graph.Node}

namespace Tree

/-- The tree of a node that stands at a level under a node with a value: the answers are those of a
visitor without a state, and a node that is not cut has all its children as branches. -/
inductive Spans (answers : Answers ρ) (root : graph.Node) :
    Nat → Option ρ → Tree graph ρ → Prop where
  | cut {level : Nat} {above : Option ρ} {node : graph.Node}
      (hcut : answers.visit (graph.idea node) level above = .cut) :
      Spans answers root level above
        ⟨node, .cut, [], answers.finish (graph.idea node) level none []⟩
  | proceed {level : Nat} {above : Option ρ} {node : graph.Node} {value : ρ}
      {branches : List (Tree graph ρ)}
      (hvalue : answers.visit (graph.idea node) level above = .proceed value)
      (hnodes : branches.map Tree.node = graph.offspring root node)
      (hbranches : ∀ branch ∈ branches, Spans answers root (level + 1) (some value) branch) :
      Spans answers root level above ⟨node, .proceed value, branches,
        answers.finish (graph.idea node) level (some value) (branches.filterMap Tree.came)⟩

theorem Spans.outcome {level : Nat} {above : Option ρ} {tree : Tree graph ρ}
    (h : tree.Spans answers root level above) :
    answers.visit (graph.idea tree.node) level above = tree.outcome := by
  cases h with
  | cut hcut => exact hcut
  | proceed hvalue => exact hvalue

/-- Every node has a tree, by induction on what is below it. -/
theorem exists_spans (answers : Answers ρ) (hroot : graph.IsTreeLike root) (node : graph.Node)
    (hnode : graph.Reached root node) (level : Nat) (above : Option ρ) :
    ∃ tree : Tree graph ρ, tree.node = node ∧ tree.Spans answers root level above := by
  induction node using hroot.wellFounded_below.induction generalizing level above with
  | h node ih =>
    cases hvisit : answers.visit (graph.idea node) level above with
    | cut => exact ⟨_, rfl, .cut hvisit⟩
    | proceed value =>
      have hchild : ∀ child : {child // child ∈ graph.offspring root node}, ∃ tree : Tree graph ρ,
          tree.node = child ∧ tree.Spans answers root (level + 1) (some value) := by
        intro ⟨child, hmem⟩
        have hbelow := Graph.below_of_mem_offspring hnode hmem
        exact ih child hbelow hbelow.reached (level + 1) (some value)
      choose branch hbranch hspans using hchild
      have hnodes : ((graph.offspring root node).attach.map branch).map Tree.node =
          graph.offspring root node := by
        rw [List.map_map]
        exact (List.map_congr_left fun child _ => hbranch child).trans
          (List.attach_map_subtype_val _)
      refine ⟨_, rfl, .proceed hvisit hnodes fun tree htree => ?_⟩
      obtain ⟨child, -, rfl⟩ := List.mem_map.mp htree
      exact hspans child

theorem Spans.reaches {level : Nat} {above : Option ρ} {tree : Tree graph ρ}
    (h : tree.Spans answers root level above) (hnode : graph.Reached root tree.node) :
    ∀ node ∈ tree.nodes, Relation.ReflTransGen (graph.Below root) tree.node node := by
  induction h with
  | cut hcut =>
    intro node hmem
    rw [nodes] at hmem
    obtain rfl := List.mem_singleton.mp hmem
    exact .refl
  | @proceed level above first value branches _ hnodes _ ih =>
    intro node hmem
    rw [nodes] at hmem
    rcases List.mem_cons.mp hmem with rfl | hbelow
    · exact .refl
    · obtain ⟨branch, hbranch, hlower⟩ := List.mem_flatMap.mp hbelow
      have hstep : graph.Below root first branch.node :=
        Graph.below_of_mem_offspring hnode (hnodes ▸ List.mem_map_of_mem hbranch)
      exact .head hstep (ih branch hbranch hstep.reached node hlower)

/-- A tree of the graph has no node twice. -/
theorem Spans.nodup (hroot : graph.IsTreeLike root) {level : Nat} {above : Option ρ}
    {tree : Tree graph ρ} (h : tree.Spans answers root level above)
    (hnode : graph.Reached root tree.node) : tree.nodes.Nodup := by
  induction h with
  | cut hcut =>
    rw [nodes]
    exact List.nodup_singleton _
  | @proceed level above first value branches _ hnodes hbranches ih =>
    have hbelow : ∀ branch ∈ branches, graph.Below root first branch.node := by
      intro branch hbranch
      exact Graph.below_of_mem_offspring hnode (hnodes ▸ List.mem_map_of_mem hbranch)
    have hreached : ∀ branch ∈ branches, ∀ node ∈ branch.nodes,
        Relation.ReflTransGen (graph.Below root) branch.node node := by
      intro branch hbranch
      exact (hbranches branch hbranch).reaches (hbelow branch hbranch).reached
    have hdistinct : (branches.map Tree.node).Nodup := hnodes ▸ nodup_eraseDups _
    rw [nodes, List.nodup_cons, List.nodup_flatMap]
    refine ⟨fun hmem => ?_, ?_, ?_⟩
    · obtain ⟨branch, hbranch, hlower⟩ := List.mem_flatMap.mp hmem
      exact hroot.not_below_itself hnode
        (Relation.TransGen.head' (hbelow branch hbranch) (hreached branch hbranch _ hlower))
    · exact fun branch hbranch => ih branch hbranch (hbelow branch hbranch).reached
    · refine (List.pairwise_map.mp hdistinct).imp_of_mem fun hone hother hne node hleft hright => ?_
      exact hroot.below_disjoint (hbelow _ hone) (hbelow _ hother) hne (hreached _ hone node hleft)
        (hreached _ hother node hright)

end Tree

/-- A tree that waits in a frame is done before the frame goes on with what the tree came to. Its
other nodes are not unseen any more; all else is as it was. -/
def Tree.Settles (answers : Answers ρ) (order : WalkOrder) (root : graph.Node) (level : Nat)
    (tree : Tree graph ρ) : Prop :=
  ∀ (frame : Frame graph ρ) (rest : List (graph.Node × Outcome ρ)) (outer : List (Frame graph ρ))
    (result : Option ρ) (unseen left : List graph.Node),
    frame.level + 1 = level → frame.waiting = (tree.node, tree.outcome) :: rest →
    (order = .breadthFirst → frame.children = []) → (root :: unseen).Nodup →
    unseen.Perm (tree.edges.map Prod.snd ++ left) →
    ∃ unseenAfter after, unseenAfter.Perm left ∧
    run answers.visitor order ⟨unseen, frame :: outer, result⟩ = run answers.visitor order
        ⟨unseenAfter, Frame.collect { frame with waiting := rest } tree.came :: outer, after⟩

/-- The trees that a frame has still to be done with: those that wait, and those of the children
that it will visit. -/
structure Frame.Bears (answers : Answers ρ) (order : WalkOrder) (root : graph.Node)
    (unseen left : List graph.Node) (frame : Frame graph ρ) (waiting fresh : List (Tree graph ρ)) :
    Prop where
  waits : waiting.map (fun tree => (tree.node, tree.outcome)) = frame.waiting
  comes : (frame.children.filter fun child => child ∈ unseen).eraseDups = fresh.map Tree.node
  visits : ∀ tree ∈ fresh,
    answers.visit (graph.idea tree.node) (frame.level + 1) (some frame.value) = tree.outcome
  settles : ∀ tree ∈ waiting ++ fresh, tree.Settles answers order root (frame.level + 1)
  nodup : (root :: unseen).Nodup
  perm : unseen.Perm ((waiting.flatMap fun tree => tree.edges.map Prod.snd) ++
    (fresh.flatMap Tree.nodes ++ left))

variable {order : WalkOrder} {unseen left : List graph.Node} {frame : Frame graph ρ}
  {outer : List (Frame graph ρ)} {waiting fresh : List (Tree graph ρ)} {child : graph.Node}
  {children : List graph.Node} {result : Option ρ}

/-- A frame settles the first child that waits; in breadth, only when it has no child to look at any
more. -/
theorem next_of_waiting {outcome : Outcome ρ} {rest : List (graph.Node × Outcome ρ)}
    (hwaiting : frame.waiting = (child, outcome) :: rest)
    (hbreadth : order = .breadthFirst → frame.children = []) :
    frame.next order = .settle child outcome { frame with waiting := rest } := by
  rcases next_cases order frame with ⟨_, _, hchildren, hdepth, -⟩ | ⟨_, _, _, hother, -, hnext⟩ |
    ⟨-, hnone, -⟩
  · cases order with
    | depthFirst => exact absurd (hwaiting.symm.trans (hdepth rfl)) (List.cons_ne_nil _ _)
    | breadthFirst => exact absurd (hchildren.symm.trans (hbreadth rfl)) (List.cons_ne_nil _ _)
  · obtain ⟨hentry, rfl⟩ := List.cons.inj (hother.symm.trans hwaiting)
    obtain ⟨rfl, rfl⟩ := Prod.mk.inj hentry
    exact hnext
  · exact absurd (hwaiting.symm.trans hnone) (List.cons_ne_nil _ _)

theorem run_of_step {after : Progress graph ρ}
    (h : step answers.visitor order unseen frame outer result () = (.ok after, ())) :
    run answers.visitor order ⟨unseen, frame :: outer, result⟩ =
      run answers.visitor order after := by
  funext s
  rw [run_cons]
  exact Attempt.bind_of_ok h

namespace Frame.Bears

/-- A child that was visited before belongs to no tree that is still to come. -/
theorem pass (h : frame.Bears answers order root unseen left waiting fresh)
    (hchildren : frame.children = child :: children) (hchild : child ∉ unseen) :
    Frame.Bears answers order root unseen left { frame with children } waiting fresh where
  __ := h
  comes := by
    have hfresh := h.comes
    rw [hchildren, List.filter_cons_of_neg (by simpa using hchild)] at hfresh
    exact hfresh

/-- A child that is unseen is the next one to get a tree. -/
theorem visit (h : frame.Bears answers order root unseen left waiting fresh)
    (hchildren : frame.children = child :: children) (hchild : child ∈ unseen) :
    ∃ tree others, fresh = tree :: others ∧ tree.node = child ∧
      Frame.Bears answers order root (unseen.erase child) left { frame with
        children
        waiting := frame.waiting ++ [(child, tree.outcome)] } (waiting ++ [tree]) others := by
  have hfresh := h.comes
  have hdistinct := (List.nodup_cons.mp h.nodup).2
  rw [hchildren, List.filter_cons_of_pos (by simpa using hchild), List.eraseDups_cons,
    List.filter_filter] at hfresh
  obtain ⟨tree, others, rfl, rfl, hothers⟩ := List.map_eq_cons_iff.mp hfresh.symm
  refine ⟨tree, others, rfl, rfl, ?_, ?_, ?_, ?_, ?_, ?_⟩
  · rw [List.map_append, h.waits]
    rfl
  · rw [hothers]
    congr 1
    refine List.filter_congr fun other _ => ?_
    simp [hdistinct.mem_erase_iff, ← Bool.beq_eq_decide_eq]
  · exact fun other hother => h.visits other (List.mem_cons_of_mem tree hother)
  · simpa using h.settles
  · exact h.nodup.sublist ((List.erase_sublist).cons_cons root)
  · have hcons : (tree.node :: (((waiting ++ [tree]).flatMap fun tree => tree.edges.map Prod.snd) ++
        (others.flatMap Tree.nodes ++ left))).Perm unseen := by
      refine List.Perm.trans ?_ h.perm.symm
      simp only [List.flatMap_append, List.flatMap_cons, List.flatMap_nil, List.append_nil,
        tree.nodes_eq, List.append_assoc, List.cons_append]
      exact List.perm_middle.symm
    exact (List.cons_perm_iff_perm_erase.mp hcons).2.symm

/-- The first tree that waits is the next one to be done with. -/
theorem settle (h : frame.Bears answers order root unseen left waiting fresh)
    {outcome : Outcome ρ} {rest : List (graph.Node × Outcome ρ)}
    (hwaiting : frame.waiting = (child, outcome) :: rest)
    (hbreadth : order = .breadthFirst → frame.children = []) (outer : List (Frame graph ρ))
    (result : Option ρ) :
    ∃ tree others unseenAfter after, waiting = tree :: others ∧
      Frame.Bears answers order root unseenAfter left
        (.collect { frame with waiting := rest } tree.came) others fresh ∧
      run answers.visitor order ⟨unseen, frame :: outer, result⟩ = run answers.visitor order
        ⟨unseenAfter, Frame.collect { frame with waiting := rest } tree.came :: outer, after⟩ := by
  obtain ⟨tree, others, rfl, hfirst, hothers⟩ := List.map_eq_cons_iff.mp (h.waits.trans hwaiting)
  have hperm : unseen.Perm (tree.edges.map Prod.snd ++
      ((others.flatMap fun tree => tree.edges.map Prod.snd) ++
        (fresh.flatMap Tree.nodes ++ left))) := by
    simpa using h.perm
  obtain ⟨unseenAfter, after, hafter, hrun⟩ :=
    h.settles tree List.mem_cons_self frame rest outer result unseen _ rfl
    (hfirst ▸ hwaiting) hbreadth h.nodup hperm
  have hsplit : unseen.Perm (tree.edges.map Prod.snd ++ unseenAfter) :=
    hperm.trans (hafter.symm.append_left _)
  refine ⟨tree, others, unseenAfter, after, rfl, ⟨hothers, ?_, h.visits, ?_, ?_, hafter⟩, hrun⟩
  · refine Eq.trans ?_ h.comes
    refine congrArg List.eraseDups (List.filter_congr fun child hchild => ?_)
    refine decide_eq_decide.mpr ⟨fun hmem => hsplit.mem_iff.mpr (List.mem_append_right _ hmem),
      fun hmem => ?_⟩
    have hcomes : child ∈ fresh.map Tree.node := by
      rw [← h.comes, List.mem_eraseDups, List.mem_filter]
      exact ⟨hchild, decide_eq_true hmem⟩
    have hlater : child ∈ (others.flatMap fun tree => tree.edges.map Prod.snd) ++
        fresh.flatMap Tree.nodes ++ left :=
      mem_of_fresh hcomes
    rw [List.append_assoc] at hlater
    exact hafter.mem_iff.mpr hlater
  · exact fun other hother => h.settles other (List.mem_cons_of_mem tree hother)
  · exact (h.nodup.perm (hsplit.cons root)).sublist ((List.sublist_append_right _ _).cons_cons root)

/-- The frame of a node that is entered now bears the trees of the children of the node. -/
theorem enter {level : Nat} {node : graph.Node} {value : ρ} {branches : List (Tree graph ρ)}
    (hnodes : branches.map Tree.node = graph.offspring root node)
    (hbranches : ∀ branch ∈ branches, branch.Spans answers root (level + 1) (some value))
    (hsettles : ∀ branch ∈ branches, branch.Settles answers order root (level + 1))
    (hnodup : (root :: unseen).Nodup) (hperm : unseen.Perm (branches.flatMap Tree.nodes ++ left)) :
    Frame.Bears answers order root unseen left (.enter node level value) [] branches := by
  refine ⟨rfl, ?_, fun branch hbranch => (hbranches branch hbranch).outcome, hsettles,
    hnodup, hperm⟩
  rw [hnodes, Graph.offspring]
  refine congrArg List.eraseDups
    (List.filter_congr fun child hchild => decide_eq_decide.mpr ⟨?_, ?_⟩)
  · rintro hmem rfl
    exact (List.nodup_cons.mp hnodup).1 hmem
  · intro hother
    have hbranch : child ∈ branches.map Tree.node := by
      rw [hnodes]
      exact Graph.mem_offspring_iff.mpr ⟨hchild, hother⟩
    have hlater : child ∈ [] ++ branches.flatMap Tree.nodes ++ left := mem_of_fresh hbranch
    exact hperm.mem_iff.mpr hlater

/-- A frame is left when it has done with all its trees. By induction on the children that are still
to be looked at, each counted twice, and on those that wait. -/
theorem run_eq (h : frame.Bears answers order root unseen left waiting fresh)
    (outer : List (Frame graph ρ)) (result : Option ρ) : ∃ unseenAfter, unseenAfter.Perm left ∧
      let came := answers.finish (graph.idea frame.node) frame.level (some frame.value)
        (frame.results ++ (waiting ++ fresh).filterMap Tree.came)
      run answers.visitor order ⟨unseen, frame :: outer, result⟩ =
        run answers.visitor order ⟨unseenAfter, collected outer came, came⟩ := by
  induction hmeasure : 2 * frame.children.length +
    frame.waiting.length using Nat.strong_induction_on
    generalizing frame unseen waiting fresh result with
  | h measure ih =>
    rcases next_cases order frame with ⟨child, rest, hchildren, -, hnext⟩ |
      ⟨child, outcome, rest, hwaiting, hbreadth, hnext⟩ | ⟨hchildren, hwaiting, hnext⟩
    · by_cases hchild : child ∈ unseen
      · obtain ⟨tree, others, rfl, rfl, hafter⟩ := h.visit hchildren hchild
        have hstep : step answers.visitor order unseen frame outer result () =
          (.ok ⟨unseen.erase tree.node, { frame with
              children := rest
              waiting := frame.waiting ++ [(tree.node, tree.outcome)] } :: outer, result⟩, ()) := by
          unfold step
          simp only [hnext]
          rw [if_pos hchild, ← h.visits tree List.mem_cons_self]
          rfl
        rw [run_of_step hstep, List.append_cons waiting tree others]
        refine ih _ ?_ hafter result rfl
        simp only [← hmeasure, hchildren, List.length_cons, List.length_append, List.length_nil]
        omega
      · have hstep : step answers.visitor order unseen frame outer result () =
            (.ok ⟨unseen, { frame with children := rest } :: outer, result⟩, ()) := by
          unfold step
          simp only [hnext]
          rw [if_neg hchild]
          rfl
        rw [run_of_step hstep]
        refine ih _ ?_ (h.pass hchildren hchild) result rfl
        simp only [← hmeasure, hchildren, List.length_cons]
        omega
    · obtain ⟨tree, others, unseenAfter, after, rfl, hafter, hrun⟩ :=
        h.settle hwaiting hbreadth outer result
      rw [hrun]
      have hresults : frame.results ++ (tree :: others ++ fresh).filterMap Tree.came =
          frame.results ++ tree.came.toList ++ (others ++ fresh).filterMap Tree.came := by
        cases hcame : tree.came with
        | none => simp [hcame]
        | some value => simp [hcame]
      rw [hresults]
      refine ih _ ?_ hafter after rfl
      simp only [← hmeasure, Frame.collect, hwaiting, List.length_cons]
      omega
    · have hstep : step answers.visitor order unseen frame outer result () =
          (.ok (.leave unseen outer
            (answers.finish (graph.idea frame.node) frame.level (some frame.value)
              frame.results)), ()) := by
        unfold step
        simp only [hnext]
        rfl
      obtain rfl := List.map_eq_nil_iff.mp (h.waits.trans hwaiting)
      have hnone := h.comes
      rw [hchildren] at hnone
      obtain rfl := List.map_eq_nil_iff.mp hnone.symm
      refine ⟨unseen, by simpa using h.perm, ?_⟩
      rw [run_of_step hstep, leave_eq]
      simp

end Frame.Bears

/-- Settling the root of a tree goes through the whole tree and hands on what it has come to. -/
theorem Tree.Spans.settles {level : Nat} {above : Option ρ} {tree : Tree graph ρ}
    (h : tree.Spans answers root level above) (order : WalkOrder) :
    tree.Settles answers order root level := by
  induction h with
  | @cut level above node hcut =>
    intro frame rest outer result unseen left hlevel hwaiting hbreadth hnodup hperm
    subst hlevel
    have hstep : step answers.visitor order unseen frame outer result () =
      (.ok ⟨unseen, Frame.collect
        { frame with waiting := rest }
        (answers.finish (graph.idea node) (frame.level + 1) none []) :: outer, result⟩, ()) := by
      unfold step
      simp only [next_of_waiting hwaiting hbreadth]
      rfl
    exact ⟨unseen, result, by simpa [edges] using hperm, run_of_step hstep⟩
  | @proceed level above node value branches _ hnodes hbranches ih =>
    intro frame rest outer result unseen left hlevel hwaiting hbreadth hnodup hperm
    subst hlevel
    have hstep : step answers.visitor order unseen frame outer result () = (.ok ⟨unseen,
        .enter node (frame.level + 1) value :: { frame with waiting := rest } :: outer,
        result⟩, ()) := by
      unfold step
      simp only [next_of_waiting hwaiting hbreadth]
      rfl
    rw [Tree.map_snd_edges] at hperm
    have hbears : Frame.Bears answers order root unseen left (.enter node (frame.level + 1) value)
        [] branches :=
      .enter hnodes hbranches ih hnodup hperm
    obtain ⟨unseenAfter, hafter, hrun⟩ :=
      hbears.run_eq ({ frame with waiting := rest } :: outer) result
    exact ⟨unseenAfter, _, hafter, (run_of_step hstep).trans hrun⟩

end Walk

open Walk

namespace Graph

variable {graph : Graph} {σ ρ : Type} {visitor : Visitor σ ρ} {answers : Answers ρ}

/-- Walks in both orders come to what the root of the tree of the graph comes to. -/
theorem walk_answers (order : WalkOrder) {root : Id} {node : graph.Node}
    (hroot : graph.node? root = some node) (htree : graph.IsTreeLike node) {tree : Tree graph ρ}
    (hnode : tree.node = node) (hspans : tree.Spans answers node 0 none) :
    graph.walk order answers.visitor root () = (.ok tree.came, ()) := by
  subst hnode
  obtain ⟨listed, hlisted, hsublist⟩ : tree.nodes.Subperm graph.nodes :=
    (hspans.nodup htree .refl).subperm fun node _ => List.mem_finRange node
  obtain ⟨left, hleft⟩ := hsublist.exists_perm_append
  have hperm : graph.nodes.Perm (tree.nodes ++ left) := hleft.trans (hlisted.append_right left)
  have hnodup : (tree.node :: graph.nodes.erase tree.node).Nodup :=
    (List.nodup_finRange _).perm (List.perm_cons_erase (List.mem_finRange _))
  unfold Graph.walk
  simp only [hroot]
  cases hspans with
  | @cut _ _ node hcut =>
    have hvisit : answers.visitor.visit (graph.idea node) 0 none () = (.ok .cut, ()) := by
      rw [answers.visit_visitor, hcut]
    exact Attempt.bind_of_ok hvisit
  | @proceed _ _ node value branches hvalue hnodes hbranches =>
    rw [Tree.nodes, List.cons_append, List.perm_comm] at hperm
    have hunseen : (graph.nodes.erase node).Perm (branches.flatMap Tree.nodes ++ left) :=
      (List.cons_perm_iff_perm_erase.mp hperm).2.symm
    have hbears : Frame.Bears answers order node (graph.nodes.erase node) left (.enter node 0 value)
        [] branches :=
      .enter hnodes hbranches (fun branch hbranch => (hbranches branch hbranch).settles order)
        hnodup hunseen
    have hvisit : answers.visitor.visit (graph.idea node) 0 none () =
        (.ok (.proceed value), ()) := by
      rw [answers.visit_visitor, hvalue]
    obtain ⟨unseenAfter, -, hrun⟩ := hbears.run_eq [] none
    let came := answers.finish (graph.idea node) 0 (some value) (branches.filterMap Tree.came)
    have hend : run answers.visitor order (⟨unseenAfter, [], came⟩ : Progress graph ρ)
        () = (.ok came, ()) := by
      rw [run]
    exact (Attempt.bind_of_ok hvisit).trans ((congrFun hrun ()).trans hend)

/-- In a graph that is a tree but for parallel links and for links back to the root, a visitor that
answers by its arguments alone makes walks in both orders come to the same, whatever its state. -/
theorem walks_agree (hanswers : visitor.AnswersBy answers) {root : Id}
    (htree : ∀ node, graph.node? root = some node → graph.IsTreeLike node) :
    ∃ came, ∀ (order : WalkOrder) (state : σ), ∃ after, graph.walk order visitor root state =
      (.ok came, after) := by
  suffices hplain : ∃ came, ∀ order : WalkOrder, graph.walk order answers.visitor root () =
      (.ok came, ()) by
    obtain ⟨came, hplain⟩ := hplain
    refine ⟨came, fun order state => ⟨(graph.walk order visitor root state).2, Prod.ext ?_ rfl⟩⟩
    have hfollows := walk_follows (hanswers.follows graph) order root state
    rw [hplain] at hfollows
    have hresult : (graph.walk order visitor root state).1 = .ok came := congrArg Prod.fst hfollows
    exact hresult
  cases hroot : graph.node? root with
  | none =>
    refine ⟨none, fun order => ?_⟩
    unfold Graph.walk
    simp only [hroot]
    rfl
  | some node =>
    obtain ⟨tree, hnode, hspans⟩ := Tree.exists_spans answers (htree node hroot) node .refl 0 none
    exact ⟨tree.came, fun order => walk_answers order hroot (htree node hroot) hnode hspans⟩

/-- Five ideas below each other. Two links lead from the first to the second one, the first one
leads to itself, and the second and the fifth one lead back to it. -/
def wayBack : List Idea × List Link :=
  let now : Timestamp := ⟨0, 0⟩
  let link (id source target : Id) : Link := ⟨id, source, target, .zero, inclusionType, now, none⟩
  ([1, 2, 3, 4, 5].map fun id => ⟨id, 1, .idea, none, none, none, false, now, now, none, 1⟩,
    [link 1 1 2, link 2 1 3, link 3 1 2, link 4 1 1, link 5 2 1, link 6 2 4, link 7 3 5,
      link 8 5 1])

theorem wayBack_isTreeLike : (ofParts wayBack.1 wayBack.2).IsTreeLike ⟨0, by decide⟩ := by
  apply isTreeLike_of_edges
  decide +kernel

/-- The fourth idea is cut and the third one comes to nothing; both orders come to what is left. -/
theorem wayBack_orders_agree :
    let graph := ofParts wayBack.1 wayBack.2
    let visitor := Recorder.visitor { cut := [4], keepCut := true, drop := [3] }
    ∃ depth breadth, graph.walk .depthFirst visitor 1 [] = (.ok (some [1, 2, -4]), depth) ∧
      graph.walk .breadthFirst visitor 1 [] = (.ok (some [1, 2, -4]), breadth) := by
  let edges : List (Edge 5) :=
    [⟨0, 1, 1, .zero⟩, ⟨0, 2, 2, .zero⟩, ⟨0, 1, 3, .zero⟩, ⟨0, 0, 4, .zero⟩, ⟨1, 0, 5, .zero⟩,
      ⟨1, 3, 6, .zero⟩, ⟨2, 4, 7, .zero⟩, ⟨4, 0, 8, .zero⟩]
  have hgraph : ofParts wayBack.1 wayBack.2 = ⟨wayBack.1, edges⟩ := rfl
  have hnode : (⟨wayBack.1, edges⟩ : Graph).node? 1 = some ⟨0, by decide⟩ := rfl
  have hcame : ((ofParts wayBack.1 wayBack.2).walk .depthFirst
      (Recorder.visitor { cut := [4], keepCut := true, drop := [3] }) 1 []).1 =
        .ok (some [1, 2, -4]) := by
    rw [hgraph, walk, hnode]
    cbv
  have hroot : (ofParts wayBack.1 wayBack.2).node? 1 = some ⟨0, by decide⟩ := rfl
  have hanswers : (Recorder.visitor { cut := [4], keepCut := true, drop := [3] }).AnswersBy
      (Recorder.answers { cut := [4], keepCut := true, drop := [3] }) :=
    Recorder.visitor_answersBy rfl rfl
  obtain ⟨came, hwalks⟩ := walks_agree hanswers fun node hfound =>
    Option.some.inj (hroot.symm.trans hfound) ▸ wayBack_isTreeLike
  obtain ⟨depth, hdepth⟩ := hwalks .depthFirst []
  obtain ⟨breadth, hbreadth⟩ := hwalks .breadthFirst []
  rw [hdepth] at hcame
  obtain rfl := Except.ok.inj hcame
  exact ⟨depth, breadth, hdepth, hbreadth⟩

end Graph

end Deliberation
