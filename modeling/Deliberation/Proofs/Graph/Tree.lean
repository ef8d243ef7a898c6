import Deliberation.Proofs.Graph.Transcript

/-!
The tree that a walk grows. Each node that a walk visits has, but for the first one, one parent: the
node that was open when the walk looked at it. What the visitor is called with, and what it answers,
can be read off this tree in either order. The tree is not there before the walk ends, so the steps
are read backwards: what is still to come after a step, together with what the step does, is what
was still to come before it.
-/

namespace Deliberation

structure Visitor.NeverFails {σ ρ : Type} (visitor : Visitor σ ρ) : Prop where
  visit : ∀ idea level above, (visitor.visit idea level above).Certain
  finish : ∀ idea level own below, (visitor.finish idea level own below).Certain

theorem Visitor.CutsBy.neverFails {σ ρ : Type} {visitor : Visitor σ ρ} {isCut : Idea → Prop}
    (h : visitor.CutsBy isCut) : visitor.NeverFails where
  visit idea level above s t e hfail := by
    obtain ⟨outcome, after, hvisit, -⟩ := h.visit idea level above s
    rw [hvisit] at hfail
    cases hfail
  finish idea level own below s t e hfail := by
    obtain ⟨came, after, hfinish⟩ := h.finish idea level own below s
    rw [hfinish] at hfail
    cases hfail

namespace Visitor.NeverFails

variable {σ ρ : Type} {visitor : Visitor σ ρ}

theorem visit_transcribed (h : visitor.NeverFails) (idea : Idea) (level : Nat) (above : Option ρ)
    (s : σ × List (Exchange ρ)) :
    ∃ outcome t, visitor.transcribed.visit idea level above s = (.ok outcome, t) ∧
      t.2 = s.2 ++ [.visited idea level above (.ok outcome)] := by
  obtain ⟨outcome, after, hvisit⟩ := (h.visit idea level above).exists_ok s.1
  exact ⟨outcome, _, transcribed_visit hvisit, rfl⟩

theorem finish_transcribed (h : visitor.NeverFails) (idea : Idea) (level : Nat) (own : Option ρ)
    (below : List ρ) (s : σ × List (Exchange ρ)) :
    ∃ came t, visitor.transcribed.finish idea level own below s = (.ok came, t) ∧
      t.2 = s.2 ++ [.finished idea level own below (.ok came)] := by
  obtain ⟨came, after, hfinish⟩ := (h.finish idea level own below).exists_ok s.1
  exact ⟨came, _, transcribed_finish hfinish, rfl⟩

end Visitor.NeverFails

namespace Walk

structure Tree (graph : Graph) (ρ : Type) where
  node : graph.Node
  outcome : Outcome ρ
  branches : List (Tree graph ρ)
  came : Option ρ

variable {graph : Graph} {σ ρ : Type}

/-- Nodes are among some children, in the order in which the children come first. -/
def InOrder (children nodes : List graph.Node) : Prop :=
  (∀ node ∈ nodes, node ∈ children) ∧
    nodes.Pairwise fun before after => children.idxOf before < children.idxOf after

theorem InOrder.later {child : graph.Node} {children nodes : List graph.Node}
    (h : InOrder children nodes) (hchild : child ∉ nodes) : InOrder (child :: children) nodes := by
  have hne : ∀ node ∈ nodes, child ≠ node := by
    rintro node hnode rfl
    exact hchild hnode
  refine ⟨fun node hnode => List.mem_cons_of_mem child (h.1 node hnode), ?_⟩
  refine h.2.imp_of_mem fun hbefore hafter hlt => ?_
  rw [List.idxOf_cons_ne _ (hne _ hbefore), List.idxOf_cons_ne _ (hne _ hafter)]
  exact Nat.succ_lt_succ hlt

theorem InOrder.first {child : graph.Node} {children nodes : List graph.Node}
    (h : InOrder children nodes) (hchild : child ∉ nodes) :
    InOrder (child :: children) (child :: nodes) := by
  have hlater := h.later hchild
  refine ⟨List.forall_mem_cons.mpr ⟨List.mem_cons_self, hlater.1⟩,
    List.pairwise_cons.mpr ⟨?_, hlater.2⟩⟩
  intro node hnode
  have hne : child ≠ node := by
    rintro rfl
    exact hchild hnode
  rw [List.idxOf_cons_self, List.idxOf_cons_ne _ hne]
  exact Nat.succ_pos _

theorem InOrder.eq_nil {nodes : List graph.Node} (h : InOrder [] nodes) : nodes = [] :=
  List.eq_nil_iff_forall_not_mem.mpr fun node hnode => List.not_mem_nil (h.1 node hnode)

namespace Tree

/-- What holds of a tree if it holds of its branches holds of all trees. -/
theorem ofBranches {motive : Tree graph ρ → Prop}
    (grow : ∀ tree, (∀ branch ∈ tree.branches, motive branch) → motive tree) (tree : Tree graph ρ) :
    motive tree := by
  obtain ⟨node, outcome, branches, came⟩ := tree
  exact grow _ fun branch _ => ofBranches grow branch

def nodes : Tree graph ρ → List graph.Node
  | ⟨node, _, branches, _⟩ => node :: branches.flatMap nodes

/-- The nodes of a tree other than the first one, each with its parent before it. -/
def edges : Tree graph ρ → List (graph.Node × graph.Node)
  | ⟨node, _, branches, _⟩ => branches.flatMap fun branch => (node, branch.node) :: branch.edges

/-- A cut node has no branches; the branches of another one were visited in the order of its
children. -/
inductive Grown : Tree graph ρ → Prop where
  | intro {node : graph.Node} {outcome : Outcome ρ} {branches : List (Tree graph ρ)}
      {came : Option ρ} (hcut : outcome.value? = none → branches = [])
      (horder : InOrder (graph.children node) (branches.map Tree.node))
      (hbranches : ∀ branch ∈ branches, branch.Grown) : Grown ⟨node, outcome, branches, came⟩

def visit (level : Nat) (above : Option ρ) (tree : Tree graph ρ) : Exchange ρ :=
  .visited (graph.idea tree.node) level above (.ok tree.outcome)

def finish (level : Nat) (tree : Tree graph ρ) : Exchange ρ :=
  .finished (graph.idea tree.node) level tree.outcome.value? (tree.branches.filterMap came)
  (.ok tree.came)

/-- All that comes after the visit of the node of a tree, up to its end. In depth a branch is done
before the next one is visited; the other walk visits all branches first. -/
def rest (order : WalkOrder) (level : Nat) : Tree graph ρ → List (Exchange ρ)
  | ⟨node, outcome, branches, came⟩ =>
    (match order with
      | .depthFirst => branches.flatMap fun branch =>
        branch.visit (level + 1) outcome.value? :: branch.rest order (level + 1)
      | .breadthFirst => branches.map (visit (level + 1) outcome.value?) ++
        branches.flatMap fun branch => branch.rest order (level + 1)) ++
      [finish level ⟨node, outcome, branches, came⟩]

/-- All calls of a walk that grows a tree, with the answers to them. -/
def transcript (order : WalkOrder) (tree : Tree graph ρ) : List (Exchange ρ) :=
  tree.visit 0 none :: tree.rest order 0

inductive Stands (tree : Tree graph ρ) : Tree graph ρ → Nat → Option ρ → Prop where
  | root : Stands tree tree 0 none
  | branch {near far : Tree graph ρ} {level : Nat} {above : Option ρ}
      (h : Stands tree near level above)
      (hbranch : far ∈ near.branches) : Stands tree far (level + 1) near.outcome.value?

variable {tree sub branch : Tree graph ρ} {level : Nat} {above : Option ρ}

theorem rest_depthFirst (tree : Tree graph ρ) (level : Nat) : tree.rest .depthFirst level =
    (tree.branches.flatMap fun branch =>
      branch.visit (level + 1) tree.outcome.value? :: branch.rest .depthFirst (level + 1)) ++
      [tree.finish level] := by
  obtain ⟨node, outcome, branches, came⟩ := tree
  rw [rest]

theorem rest_breadthFirst (tree : Tree graph ρ) (level : Nat) : tree.rest .breadthFirst level =
    tree.branches.map (visit (level + 1) tree.outcome.value?) ++
      (tree.branches.flatMap fun branch => branch.rest .breadthFirst (level + 1)) ++
        [tree.finish level] := by
  obtain ⟨node, outcome, branches, came⟩ := tree
  rw [rest]

/-- The nodes of a tree are its root and the ends of its edges. -/
theorem nodes_eq (tree : Tree graph ρ) : tree.nodes = tree.node :: tree.edges.map Prod.snd := by
  induction tree using ofBranches with
  | grow tree ih =>
    obtain ⟨node, outcome, branches, came⟩ := tree
    rw [nodes, edges, List.map_flatMap]
    exact congrArg (node :: ·) (List.flatMap_congr fun branch hbranch => ih branch hbranch)

theorem map_snd_edges (tree : Tree graph ρ) :
    tree.edges.map Prod.snd = tree.branches.flatMap nodes := by
  have hnodes := tree.nodes_eq
  obtain ⟨node, outcome, branches, came⟩ := tree
  rw [nodes] at hnodes
  exact (List.cons.inj hnodes).2.symm

/-- In a tree that has no node twice, each node but the first one has exactly one parent. -/
theorem existsUnique_parent (hnodup : tree.nodes.Nodup) {child : graph.Node}
    (hchild : child ∈ tree.nodes) (hother : child ≠ tree.node) :
    ∃! parent, (parent, child) ∈ tree.edges := by
  rw [nodes_eq] at hnodup hchild
  obtain ⟨⟨parent, same⟩, hedge, rfl⟩ :=
    List.mem_map.mp ((List.mem_cons.mp hchild).resolve_left hother)
  refine ⟨parent, hedge, fun other hagain => ?_⟩
  exact congrArg Prod.fst (List.inj_on_of_nodup_map (List.nodup_cons.mp hnodup).2 hagain hedge rfl)

/-- In depth all that belongs to a branch stands together, from its visit to its end. -/
theorem block_infix_of_mem (hbranch : branch ∈ tree.branches) :
    branch.visit (level + 1) tree.outcome.value? :: branch.rest .depthFirst (level + 1) <:+:
      tree.rest .depthFirst level := by
  have hblock := List.infix_of_mem_flatten (List.mem_map_of_mem hbranch (f := fun branch =>
    branch.visit (level + 1) tree.outcome.value? :: branch.rest .depthFirst (level + 1)))
  rw [rest_depthFirst tree]
  exact hblock.trans (List.prefix_append _ _).isInfix

/-- In either order all that comes after the visit of a branch and belongs to it stands together. -/
theorem rest_infix_of_mem (order : WalkOrder) (hbranch : branch ∈ tree.branches) :
    branch.rest order (level + 1) <:+: tree.rest order level := by
  cases order with
  | depthFirst => exact (List.suffix_cons _ _).isInfix.trans (block_infix_of_mem hbranch)
  | breadthFirst =>
    have hrest :=
      List.infix_of_mem_flatten (List.mem_map_of_mem hbranch (f := rest .breadthFirst (level + 1)))
    rw [rest_breadthFirst tree]
    exact hrest.trans ((List.suffix_append _ _).isInfix.trans (List.prefix_append _ _).isInfix)

/-- What comes after the visit of a subtree comes without a break. -/
theorem Stands.rest_infix (order : WalkOrder) (h : tree.Stands sub level above) :
    sub.rest order level <:+: tree.transcript order := by
  induction h with
  | root => exact (List.suffix_cons _ _).isInfix
  | branch _ hbranch ih => exact (rest_infix_of_mem order hbranch).trans ih

/-- In depth all calls for a subtree come without a break, the visit first. -/
theorem Stands.block_infix (h : tree.Stands sub level above) :
    sub.visit level above :: sub.rest .depthFirst level <:+: tree.transcript .depthFirst := by
  cases h with
  | root => exact List.infix_rfl
  | branch hnear hbranch => exact (block_infix_of_mem hbranch).trans (hnear.rest_infix .depthFirst)

/-- What is visited after the root are the ends of the edges, each once. -/
theorem visited_rest (order : WalkOrder) (tree : Tree graph ρ) (level : Nat) :
    ((tree.rest order level).filterMap fun exchange => exchange.call.visitedIdea?).Perm
      ((tree.edges.map Prod.snd).map graph.idea) := by
  induction tree using ofBranches generalizing level with
  | grow tree ih =>
    have hedges : (tree.edges.map Prod.snd).map graph.idea = tree.branches.flatMap fun branch =>
        graph.idea branch.node :: (branch.edges.map Prod.snd).map graph.idea := by
      obtain ⟨node, outcome, branches, came⟩ := tree
      simp [edges, List.map_flatMap]
    have hbranches := List.Perm.flatMap_left tree.branches fun branch hbranch =>
      (ih branch hbranch (level + 1)).cons (graph.idea branch.node)
    rw [hedges]
    refine List.Perm.trans ?_ hbranches
    cases order with
    | depthFirst =>
      rw [rest_depthFirst]
      simp [List.filterMap_flatMap, visit, finish, Exchange.call, Callback.visitedIdea?]
    | breadthFirst =>
      rw [rest_breadthFirst]
      have hvisits : (tree.branches.map (visit (level + 1) tree.outcome.value?)).filterMap
          (fun exchange => exchange.call.visitedIdea?) =
            tree.branches.map fun branch => graph.idea branch.node := by
        rw [List.filterMap_map]
        exact congrFun (List.filterMap_eq_map
          (f := fun branch : Tree graph ρ => graph.idea branch.node)) _
      rw [List.filterMap_append, List.filterMap_append, hvisits, List.filterMap_flatMap]
      simpa [finish, Exchange.call, Callback.visitedIdea?] using
        List.map_append_flatMap_perm tree.branches (fun branch => graph.idea branch.node) _

/-- The visits in a transcript are those of the nodes of the tree. -/
theorem visited_transcript (order : WalkOrder) (tree : Tree graph ρ) :
    (((tree.transcript order).map Exchange.call).filterMap Callback.visitedIdea?).Perm
      (tree.nodes.map graph.idea) := by
  rw [nodes_eq, List.map_cons, List.filterMap_map]
  exact (visited_rest order tree 0).cons (graph.idea tree.node)

theorem grown_cut (node : graph.Node) (came : Option ρ) : Grown ⟨node, .cut, [], came⟩ :=
  .intro (fun _ => rfl) ⟨by simp, by simp⟩ (by simp)

theorem rest_cut (order : WalkOrder) (level : Nat) (node : graph.Node) (came : Option ρ) :
    rest order level ⟨node, .cut, [], came⟩ =
      [.finished (graph.idea node) level none [] (.ok came)] := by
  cases order with
  | depthFirst => exact rest_depthFirst _ level
  | breadthFirst => exact rest_breadthFirst _ level

end Tree

/-! ## What is still to come -/

/-- What comes of trees some of which wait while the others have still to be visited. -/
def following (order : WalkOrder) (visit : Tree graph ρ → Exchange ρ)
    (rest : Tree graph ρ → List (Exchange ρ)) (waiting fresh : List (Tree graph ρ)) :
    List (Exchange ρ) :=
  match order with
  | .depthFirst => waiting.flatMap rest ++ fresh.flatMap fun tree => visit tree :: rest tree
  | .breadthFirst => fresh.map visit ++ (waiting ++ fresh).flatMap rest

/-- After the visit of its root a tree is followed branch by branch, and then the root is finished.
-/
theorem Tree.rest_eq (order : WalkOrder) (tree : Tree graph ρ) (level : Nat) :
    tree.rest order level =
      following order (visit (level + 1) tree.outcome.value?) (Tree.rest order (level + 1))
      [] tree.branches ++ [tree.finish level] := by
  cases order with
  | depthFirst => exact tree.rest_depthFirst level
  | breadthFirst => exact tree.rest_breadthFirst level

theorem following_nil (order : WalkOrder) (visit : Tree graph ρ → Exchange ρ)
    (rest : Tree graph ρ → List (Exchange ρ)) : following order visit rest [] [] = [] := by
  cases order with
  | depthFirst => rfl
  | breadthFirst => rfl

/-- While branches are fresh the first of them is visited and waits; in depth, only if none waits
before it. -/
theorem following_visit {order : WalkOrder} {visit : Tree graph ρ → Exchange ρ}
    {rest : Tree graph ρ → List (Exchange ρ)} {branch : Tree graph ρ}
    {waiting fresh : List (Tree graph ρ)} (h : order = .depthFirst → waiting = []) :
    following order visit rest waiting (branch :: fresh) =
      visit branch :: following order visit rest (waiting ++ [branch]) fresh := by
  cases order with
  | depthFirst => simp [following, h rfl]
  | breadthFirst => simp [following]

/-- The first branch that waits is followed; in breadth, only when all others have been visited. -/
theorem following_settle {order : WalkOrder} {visit : Tree graph ρ → Exchange ρ}
    {rest : Tree graph ρ → List (Exchange ρ)} {branch : Tree graph ρ}
    {waiting fresh : List (Tree graph ρ)} (h : order = .breadthFirst → fresh = []) :
    following order visit rest (branch :: waiting) fresh =
      rest branch ++ following order visit rest waiting fresh := by
  cases order with
  | depthFirst => simp [following]
  | breadthFirst => simp [following, h rfl]

def collected : List (Frame graph ρ) → Option ρ → List (Frame graph ρ)
  | [], _ => []
  | frame :: outer, came => frame.collect came :: outer

theorem leave_eq (unseen : List graph.Node) (outer : List (Frame graph ρ)) (came : Option ρ) :
    Progress.leave unseen outer came = ⟨unseen, collected outer came, came⟩ := by
  cases outer with
  | nil => rfl
  | cons frame rest => rfl

theorem mem_of_fresh {child : graph.Node} {nodes others : List graph.Node}
    {fresh : List (Tree graph ρ)} (h : child ∈ fresh.map Tree.node) :
    child ∈ others ++ fresh.flatMap Tree.nodes ++ nodes := by
  obtain ⟨tree, htree, rfl⟩ := List.mem_map.mp h
  have hnode : tree.node ∈ tree.nodes := by
    rw [tree.nodes_eq]
    exact List.mem_cons_self
  exact List.mem_append_left nodes
    (List.mem_append_right others (List.mem_flatMap.mpr ⟨tree, htree, hnode⟩))

/-- What is still to come of a walk: exchanges, nodes that are visited, and what the walk comes to.
Each open node gets further branches, for the children that wait and for some of those that have
still to be looked at. -/
inductive Ahead (order : WalkOrder) :
    List (Frame graph ρ) → Option ρ → List (Exchange ρ) → List graph.Node → Option ρ → Prop where
  | done (result : Option ρ) : Ahead order [] result [] [] result
  | frame {frame : Frame graph ρ} {outer : List (Frame graph ρ)} {result came last : Option ρ}
      {waiting fresh : List (Tree graph ρ)} {exchanges : List (Exchange ρ)}
      {nodes : List graph.Node}
      (hwaiting : waiting.map (fun tree => (tree.node, tree.outcome)) = frame.waiting)
      (horder : InOrder frame.children (fresh.map Tree.node))
      (hgrown : ∀ tree ∈ waiting ++ fresh, tree.Grown)
      (houter : Ahead order (collected outer came) came exchanges nodes last) :
      Ahead order (frame :: outer) result
        (following order (Tree.visit (frame.level + 1) (some frame.value))
            (Tree.rest order (frame.level + 1)) waiting fresh ++
          .finished (graph.idea frame.node) frame.level (some frame.value)
            (frame.results ++ (waiting ++ fresh).filterMap Tree.came) (.ok came) :: exchanges)
        ((waiting.flatMap fun tree => tree.edges.map Prod.snd) ++
          fresh.flatMap Tree.nodes ++ nodes) last

namespace Ahead

variable {order : WalkOrder} {frame : Frame graph ρ} {outer : List (Frame graph ρ)}
  {result last : Option ρ} {exchanges : List (Exchange ρ)} {nodes unseen : List graph.Node}
  {child : graph.Node}

theorem pass {children : List graph.Node} (hchildren : frame.children = child :: children)
    (hchild : child ∉ nodes)
    (h : Ahead order ({ frame with children } :: outer) result exchanges nodes last) :
    Ahead order (frame :: outer) result exchanges nodes last := by
  cases h with
  | frame hwaiting horder hgrown houter =>
    refine .frame hwaiting ?_ hgrown houter
    rw [hchildren]
    exact horder.later fun hmem => hchild (mem_of_fresh hmem)

/-- A child that is visited has a branch, which waits. -/
theorem visit {children : List graph.Node} {outcome : Outcome ρ}
    (hchildren : frame.children = child :: children)
    (hdepth : order = .depthFirst → frame.waiting = []) (hchild : child ∉ nodes)
    (h : Ahead order ({ frame with
      children
      waiting := frame.waiting ++ [(child, outcome)] } :: outer) result exchanges nodes last) :
    ∃ more, more.Perm (child :: nodes) ∧ Ahead order (frame :: outer) result
      (.visited (graph.idea child) (frame.level + 1) (some frame.value) (.ok outcome) :: exchanges)
      more last := by
  cases h with
  | @frame _ _ _ came _ waiting fresh exchanges nodes hwaiting horder hgrown houter =>
    obtain ⟨before, rest, rfl, hbefore, hrest⟩ := List.map_eq_append_iff.mp hwaiting
    obtain ⟨branch, rfl, hbranch⟩ := List.map_eq_singleton_iff.mp hrest
    obtain ⟨rfl, rfl⟩ := Prod.mk.inj hbranch
    have hfresh : InOrder frame.children ((branch :: fresh).map Tree.node) := by
      rw [hchildren]
      exact horder.first fun hmem => hchild (mem_of_fresh hmem)
    have hempty : order = .depthFirst → before = [] := by
      intro horder
      exact List.map_eq_nil_iff.mp (hbefore.trans (hdepth horder))
    have hahead : Ahead order (frame :: outer) result _ _ last :=
      .frame hbefore hfresh (by simpa using hgrown) houter
    rw [following_visit hempty, List.append_cons before branch fresh] at hahead
    refine ⟨_, ?_, hahead⟩
    simp only [List.flatMap_cons, List.flatMap_append, List.flatMap_nil, List.append_nil,
      branch.nodes_eq, List.append_assoc, List.cons_append]
    exact List.perm_middle

/-- A child that waits gets its branch before the frame goes on with what the branch came to. -/
theorem settle {branch : Tree graph ρ} {rest : List (graph.Node × Outcome ρ)}
    (hgrows : branch.Grown) (hsettled : frame.waiting = (branch.node, branch.outcome) :: rest)
    (hbreadth : order = .breadthFirst → frame.children = []) {before : Option ρ}
    (h : Ahead order (Frame.collect { frame with waiting := rest } branch.came :: outer) before
      exchanges nodes last) :
    Ahead order (frame :: outer) result (branch.rest order (frame.level + 1) ++ exchanges)
      (branch.edges.map Prod.snd ++ nodes) last := by
  cases h with
  | @frame _ _ _ came _ waiting fresh exchanges nodes hwaiting horder hgrown houter =>
    have hall : (branch :: waiting).map (fun tree => (tree.node, tree.outcome)) =
        frame.waiting := by
      rw [hsettled, List.map_cons, hwaiting]
      rfl
    have hempty : order = .breadthFirst → fresh = [] := by
      intro hfirst
      have hnone : InOrder [] (fresh.map Tree.node) := hbreadth hfirst ▸ horder
      exact List.map_eq_nil_iff.mp hnone.eq_nil
    have hahead : Ahead order (frame :: outer) result _ _ last :=
      .frame hall horder (List.forall_mem_cons.mpr ⟨hgrows, hgrown⟩) houter
    rw [following_settle hempty] at hahead
    have hresults : (Frame.collect { frame with waiting := rest } branch.came).results ++
        (waiting ++ fresh).filterMap Tree.came =
          frame.results ++ (branch :: waiting ++ fresh).filterMap Tree.came := by
      cases hcame : branch.came with
      | none => simp [Frame.collect, hcame]
      | some value => simp [Frame.collect, hcame]
    rw [hresults]
    simpa only [Frame.collect, List.append_assoc, List.cons_append, List.flatMap_cons] using hahead

theorem dismiss {rest : List (graph.Node × Outcome ρ)} {came : Option ρ}
    (hwaiting : frame.waiting = (child, .cut) :: rest)
    (hbreadth : order = .breadthFirst → frame.children = [])
    (h : Ahead order (Frame.collect { frame with waiting := rest } came :: outer) result exchanges
      nodes last) :
    Ahead order (frame :: outer) result
      (.finished (graph.idea child) (frame.level + 1) none [] (.ok came) :: exchanges)
      nodes last := by
  have hahead : Ahead order (frame :: outer) result _ _ last :=
    settle (Tree.grown_cut child came) hwaiting hbreadth h
  rw [Tree.rest_cut, Tree.edges] at hahead
  exact hahead

/-- A node that is entered is done with a tree of its own. -/
theorem of_enter {level : Nat} {value : ρ}
    (h : Ahead order (.enter child level value :: outer) result exchanges nodes last) :
    ∃ branch : Tree graph ρ, branch.node = child ∧ branch.outcome = .proceed value ∧ branch.Grown ∧
      ∃ later others, exchanges = branch.rest order level ++ later ∧
        nodes = branch.edges.map Prod.snd ++ others ∧
        Ahead order (collected outer branch.came) branch.came later others last := by
  cases h with
  | @frame _ _ _ came _ none branches later others hnone horder hgrown hrest =>
    obtain rfl := List.map_eq_nil_iff.mp hnone
    let branch : Tree graph ρ := ⟨child, .proceed value, branches, came⟩
    have hbranch : branch.Grown := .intro (by simp [Outcome.value?]) horder hgrown
    refine ⟨branch, rfl, rfl, hbranch, later, others, ?_, ?_, hrest⟩
    · rw [branch.rest_eq, List.append_assoc]
      rfl
    · rw [branch.map_snd_edges]
      rfl

/-- A branch that was not cut is followed before the nodes around it go on. -/
theorem enter {rest : List (graph.Node × Outcome ρ)} {value : ρ}
    (hwaiting : frame.waiting = (child, .proceed value) :: rest)
    (hbreadth : order = .breadthFirst → frame.children = [])
    (h :
      Ahead order (.enter child (frame.level + 1) value :: { frame with waiting := rest } ::
        outer) result
      exchanges nodes last) : Ahead order (frame :: outer) result exchanges nodes last := by
  obtain ⟨branch, rfl, houtcome, hgrown, later, others, rfl, rfl, hrest⟩ := h.of_enter
  exact settle hgrown (houtcome ▸ hwaiting) hbreadth hrest

/-- A node without further children is finished and handed to the node around it. -/
theorem leave {came : Option ρ} (hwaiting : frame.waiting = [])
    (h : Ahead order (collected outer came) came exchanges nodes last) :
    Ahead order (frame :: outer) result
      (.finished (graph.idea frame.node) frame.level (some frame.value)
        frame.results (.ok came) :: exchanges) nodes last := by
  have hnone : ([] : List (Tree graph ρ)).map (fun tree => (tree.node, tree.outcome)) =
      frame.waiting :=
    hwaiting.symm
  have horder : InOrder frame.children (([] : List (Tree graph ρ)).map Tree.node) :=
    ⟨by simp, by simp⟩
  have hahead : Ahead order (frame :: outer) result _ _ last := .frame hnone horder (by simp) h
  simpa only [following_nil, List.filterMap_nil, List.append_nil, List.nil_append, List.flatMap_nil]
    using hahead

end Ahead

variable {visitor : Visitor σ ρ} {unseen : List graph.Node}

/-- What a step does and what is to come after it is what was to come before it. -/
theorem step_ahead (hnever : visitor.NeverFails) (order : WalkOrder) (hnodup : unseen.Nodup)
    (frame : Frame graph ρ) (outer : List (Frame graph ρ)) (result : Option ρ)
    (s : σ × List (Exchange ρ)) :
    ∃ after t now, step visitor.transcribed order unseen frame outer result s = (.ok after, t) ∧
      t.2 = s.2 ++ now ∧ after.unseen.Nodup ∧
      ∀ exchanges nodes last, Ahead order after.frames after.result exchanges nodes last →
        nodes.Subperm after.unseen →
        ∃ more, more.Subperm unseen ∧
        Ahead order (frame :: outer) result (now ++ exchanges) more last := by
  unfold step
  rcases next_cases order frame with ⟨child, rest, hchildren, hdepth, hnext⟩ |
    ⟨child, outcome, rest, hwaiting, hbreadth, hnext⟩ | ⟨-, hwaiting, hnext⟩
  · simp only [hnext]
    by_cases hchild : child ∈ unseen
    · obtain ⟨outcome, t, hvisit, hwritten⟩ :=
        hnever.visit_transcribed (graph.idea child) (frame.level + 1) (some frame.value) s
      let after : Progress graph ρ := ⟨unseen.erase child, { frame with
        children := rest
        waiting := frame.waiting ++ [(child, outcome)] } :: outer, result⟩
      refine ⟨after, t, _, ?_, hwritten, hnodup.erase child, ?_⟩
      · rw [if_pos hchild]
        exact Attempt.bind_eq_ok_iff.mpr ⟨outcome, t, hvisit, rfl⟩
      · intro exchanges nodes last hlater hnodes
        have hnot : child ∉ nodes := fun hmem => hnodup.not_mem_erase (hnodes.subset hmem)
        obtain ⟨more, hmore, hahead⟩ := hlater.visit hchildren hdepth hnot
        refine ⟨more, ?_, hahead⟩
        have hcons : (child :: nodes).Subperm (child :: unseen.erase child) :=
          (List.subperm_cons child).mpr hnodes
        exact hmore.subperm.trans (hcons.trans (List.perm_cons_erase hchild).symm.subperm)
    · refine ⟨⟨unseen, { frame with children := rest } :: outer, result⟩, s, [], ?_,
        (List.append_nil _).symm, hnodup, ?_⟩
      · rw [if_neg hchild]
        rfl
      · intro exchanges nodes last hlater hnodes
        exact ⟨nodes, hnodes, hlater.pass hchildren fun hmem => hchild (hnodes.subset hmem)⟩
  · cases outcome with
    | proceed value =>
      simp only [hnext]
      exact ⟨_, s, [], rfl, (List.append_nil _).symm, hnodup,
          fun exchanges nodes last hlater hnodes =>
        ⟨nodes, hnodes, hlater.enter hwaiting hbreadth⟩⟩
    | cut =>
      simp only [hnext]
      obtain ⟨came, t, hfinish, hwritten⟩ :=
        hnever.finish_transcribed (graph.idea child) (frame.level + 1) none [] s
      exact ⟨_, t, _, Attempt.bind_eq_ok_iff.mpr ⟨came, t, hfinish, rfl⟩, hwritten, hnodup,
        fun exchanges nodes last hlater hnodes => ⟨nodes, hnodes, hlater.dismiss hwaiting hbreadth⟩⟩
  · simp only [hnext]
    obtain ⟨came, t, hfinish, hwritten⟩ :=
      hnever.finish_transcribed (graph.idea frame.node) frame.level (some frame.value)
        frame.results s
    refine ⟨_, t, _, Attempt.bind_eq_ok_iff.mpr ⟨came, t, hfinish, rfl⟩, hwritten, ?_, ?_⟩
    · rw [leave_eq]
      exact hnodup
    · rw [leave_eq]
      exact fun exchanges nodes last hlater hnodes => ⟨nodes, hnodes, hlater.leave hwaiting⟩

/-- What a run does is what was to come at its start. By induction on the steps: what was to come at
the start is put together on the way back from the end. -/
theorem run_ahead (hnever : visitor.NeverFails) (order : WalkOrder) (progress : Progress graph ρ)
    (hnodup : progress.unseen.Nodup) (s : σ × List (Exchange ρ)) :
    ∃ last after exchanges nodes,
      run visitor.transcribed order progress s = (.ok last, after, s.2 ++ exchanges) ∧
      Ahead order progress.frames progress.result exchanges nodes last ∧
      nodes.Subperm progress.unseen := by
  induction progress using run.induct visitor.transcribed order generalizing s with
  | case1 unseen result =>
    refine ⟨result, s.1, [], [], ?_, .done result, List.nil_subperm⟩
    rw [run, List.append_nil]
  | case2 unseen frame outer result ih =>
    obtain ⟨after, t, now, hstep, hwritten, hafter, hback⟩ :=
      step_ahead hnever order hnodup frame outer result s
    obtain ⟨last, final, exchanges, nodes, hrun, hahead, hnodes⟩ := ih s after t hstep hafter t
    obtain ⟨more, hmore, hbefore⟩ := hback exchanges nodes last hahead hnodes
    refine ⟨last, final, now ++ exchanges, more, ?_, hbefore, hmore⟩
    rw [run_cons]
    refine Attempt.bind_eq_ok_iff.mpr ⟨after, t, hstep, ?_⟩
    rw [hrun, hwritten, List.append_assoc]

end Walk

open Walk

namespace Graph

variable {graph : Graph} {σ ρ : Type} {visitor : Visitor σ ρ}

/-- A walk with a visitor that never fails grows some tree, and its transcript is that of the tree.
-/
theorem exists_tree (hnever : visitor.NeverFails) (order : WalkOrder) {root : Id}
    {node : graph.Node} (hroot : graph.node? root = some node) (state : σ) :
    ∃ (tree : Tree graph ρ) (after : σ),
      graph.walk order visitor.transcribed root (state, []) =
        (.ok tree.came, after, tree.transcript order) ∧
      tree.node = node ∧ tree.Grown ∧ tree.nodes.Nodup := by
  obtain ⟨outcome, s, hvisit, hwritten⟩ :=
    hnever.visit_transcribed (graph.idea node) 0 none (state, [])
  unfold Graph.walk
  simp only [hroot]
  cases outcome with
  | proceed value =>
    obtain ⟨last, after, exchanges, nodes, hrun, hahead, hnodes⟩ :=
      run_ahead hnever order ⟨graph.nodes.erase node, [.enter node 0 value], none⟩
        ((List.nodup_finRange _).erase node) s
    obtain ⟨tree, rfl, houtcome, hgrown, later, others, rfl, rfl, hend⟩ := hahead.of_enter
    cases hend
    rw [List.append_nil] at hnodes
    have hall : (tree.node :: tree.edges.map Prod.snd).Subperm graph.nodes :=
      ((List.subperm_cons _).mpr hnodes).trans
        (List.perm_cons_erase (List.mem_finRange _)).symm.subperm
    have hnodup : tree.nodes.Nodup := by
      rw [tree.nodes_eq]
      obtain ⟨listed, hperm, hsublist⟩ := hall
      exact hperm.nodup_iff.mp ((List.nodup_finRange _).sublist hsublist)
    have htranscript : s.2 ++ tree.rest order 0 = tree.transcript order := by
      rw [hwritten, Tree.transcript, Tree.visit, houtcome]
      rfl
    rw [List.append_nil, htranscript] at hrun
    exact ⟨tree, after, Attempt.bind_eq_ok_iff.mpr ⟨.proceed value, s, hvisit, hrun⟩, rfl,
      hgrown, hnodup⟩
  | cut =>
    obtain ⟨came, t, hfinish, hmore⟩ := hnever.finish_transcribed (graph.idea node) 0 none [] s
    have htranscript : t.2 = Tree.transcript order ⟨node, .cut, [], came⟩ := by
      rw [hmore, hwritten, Tree.transcript, Tree.rest_cut]
      rfl
    have hnodup : (Tree.nodes ⟨node, .cut, [], came⟩).Nodup := by
      rw [Tree.nodes]
      exact List.nodup_singleton node
    refine ⟨⟨node, .cut, [], came⟩, t.1, ?_, rfl, Tree.grown_cut node came, hnodup⟩
    rw [← htranscript]
    exact Attempt.bind_eq_ok_iff.mpr ⟨.cut, s, hvisit, hfinish⟩

/-- The calls of a walk, and the answers to them, are those of a tree on the nodes that are visited.
The walk comes to what the root of the tree came to. In depth the calls for a subtree stand
together, the visit of its node first. In the other walk all that comes after the visit of a node,
up to its end, stands together, the visits of its branches first. -/
theorem walk_grows_tree (hnever : visitor.NeverFails) (order : WalkOrder) {root : Id}
    {node : graph.Node} (hroot : graph.node? root = some node) (state : σ) :
    ∃ (tree : Tree graph ρ) (after : σ),
      graph.walk order visitor.transcribed root (state, []) =
        (.ok tree.came, after, tree.transcript order) ∧
      graph.walk order visitor root state = (.ok tree.came, after) ∧
      tree.node = node ∧ tree.Grown ∧ tree.nodes.Nodup ∧
      (((tree.transcript order).map Exchange.call).filterMap Callback.visitedIdea?).Perm
        (tree.nodes.map graph.idea) ∧
      (∀ child ∈ tree.nodes, child ≠ node → ∃! parent, (parent, child) ∈ tree.edges) ∧
      ∀ sub level above, tree.Stands sub level above →
        (order = .depthFirst →
          sub.visit level above :: sub.rest order level <:+: tree.transcript order) ∧
        (order = .breadthFirst →
          sub.branches.map (Tree.visit (level + 1) sub.outcome.value?) <+: sub.rest order level ∧
          sub.rest order level <:+: tree.transcript order) := by
  obtain ⟨tree, after, hwalk, rfl, hgrown, hnodup⟩ := exists_tree hnever order hroot state
  refine ⟨tree, after, hwalk, walk_of_transcribed hwalk, rfl, hgrown, hnodup,
    tree.visited_transcript order,
    fun child hchild hother => Tree.existsUnique_parent hnodup hchild hother,
    fun sub level above hstands => ?_⟩
  constructor
  · rintro rfl
    exact hstands.block_infix
  · rintro rfl
    refine ⟨?_, hstands.rest_infix .breadthFirst⟩
    rw [sub.rest_breadthFirst, List.append_assoc]
    exact List.prefix_append _ _

/-- From the first of the four ideas, with the third one cut, both orders grow a tree. -/
theorem roundabout_grows_trees :
    let graph := ofParts roundabout.1 roundabout.2
    let visitor := (Recorder.visitor { cut := [3] }).transcribed
    ∃ depth breadth : Tree graph (List Id),
      (graph.walk .depthFirst visitor 1 ([], [])).2.2 = depth.transcript .depthFirst ∧
        depth.nodes.Nodup ∧
      (graph.walk .breadthFirst visitor 1 ([], [])).2.2 = breadth.transcript .breadthFirst ∧
      breadth.nodes.Nodup := by
  intro graph visitor
  have hcuts : (Recorder.visitor { cut := [3] }).CutsBy fun idea => idea.id ∈ [3] :=
    Recorder.visitor_cutsBy rfl rfl
  have hroot : graph.node? 1 = some ⟨0, by decide⟩ := rfl
  obtain ⟨depth, _, hdepth, -, -, -, hdistinct, -⟩ :=
    walk_grows_tree hcuts.neverFails .depthFirst hroot []
  obtain ⟨breadth, _, hbreadth, -, -, -, hotherDistinct, -⟩ :=
    walk_grows_tree hcuts.neverFails .breadthFirst hroot []
  exact ⟨depth, breadth, congrArg (·.2.2) hdepth, hdistinct, congrArg (·.2.2) hbreadth,
    hotherDistinct⟩

end Graph

end Deliberation
