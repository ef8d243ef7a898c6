import Deliberation.Proofs.Graph.Walk
import Mathlib.Data.List.FinRange
import Mathlib.Data.List.Perm.Basic
import Mathlib.Logic.Relation

/-!
Which nodes a walk comes to. Whatever the order of the walk, it visits the nodes that can be reached
from its start through nodes that are not cut, each of them once, and it finishes the same nodes,
each of them once. The invariant speaks of the nodes visited and finished so far; that nothing is
left out follows at the end of the walk, where nothing is open any more.
-/

namespace Deliberation

structure Visitor.CutsBy {σ ρ : Type} (visitor : Visitor σ ρ) (isCut : Idea → Prop) : Prop where
  visit : ∀ idea level above s, ∃ outcome t, visitor.visit idea level above s = (.ok outcome, t) ∧
    (outcome.value? = none ↔ isCut idea)
  finish : ∀ idea level own below s, ∃ came t, visitor.finish idea level own below s = (.ok came, t)

namespace Walk

variable {graph : Graph} {σ ρ : Type} {isCut : Idea → Prop} {root : graph.Node}
  {seen left unseen : List graph.Node} {outer : List (Frame graph ρ)} {frame : Frame graph ρ}
  {result : Option ρ} {child : graph.Node}

/-- What a frame does next, with what it has to hold for that. In depth nothing else waits where a
child is looked at; the other walk has looked at all children where one is entered or left. -/
theorem next_cases (order : WalkOrder) (frame : Frame graph ρ) :
    (∃ child rest, frame.children = child :: rest ∧ (order = .depthFirst → frame.waiting = []) ∧
      frame.next order = .look child { frame with children := rest }) ∨
    (∃ child outcome rest, frame.waiting = (child, outcome) :: rest ∧
      (order = .breadthFirst → frame.children = []) ∧
      frame.next order = .settle child outcome { frame with waiting := rest }) ∨
    (frame.children = [] ∧ frame.waiting = [] ∧ frame.next order = .leave) := by
  unfold Frame.next
  rcases hchildren : frame.children with _ | ⟨child, children⟩
  · rcases hwaiting : frame.waiting with _ | ⟨⟨other, outcome⟩, waiting⟩
    · exact Or.inr (Or.inr ⟨rfl, rfl, by cases order <;> rfl⟩)
    · exact Or.inr (Or.inl ⟨other, outcome, waiting, rfl, fun _ => rfl, by cases order <;> rfl⟩)
  · cases order with
    | depthFirst =>
      rcases hwaiting : frame.waiting with _ | ⟨⟨other, outcome⟩, waiting⟩
      · exact Or.inl ⟨child, children, rfl, fun _ => rfl, rfl⟩
      · exact Or.inr (Or.inl ⟨other, outcome, waiting, rfl, by simp, rfl⟩)
    | breadthFirst => exact Or.inl ⟨child, children, rfl, by simp, rfl⟩

/-- A walk may go on from a node to another one. -/
def Leads (graph : Graph) (isCut : Idea → Prop) (near far : graph.Node) : Prop :=
  ¬ isCut (graph.idea near) ∧ far ∈ graph.children near

/-- The nodes that have been visited and not been finished: those entered, and those that wait. -/
def openNodes : List (Frame graph ρ) → List graph.Node
  | [] => []
  | frame :: rest => frame.node :: (frame.waiting.map (·.1) ++ openNodes rest)

structure Frame.Keeps (isCut : Idea → Prop) (seen : List graph.Node) (frame : Frame graph ρ) :
    Prop where
  uncut : ¬ isCut (graph.idea frame.node)
  looked : ∀ child ∈ graph.children frame.node, child ∈ frame.children ∨ child ∈ seen
  children : ∀ child ∈ frame.children, child ∈ graph.children frame.node
  waiting : ∀ entry ∈ frame.waiting, (entry.2.value? = none ↔ isCut (graph.idea entry.1))

/-- How far a walk from `root` has come when it has visited the nodes `seen` and finished the nodes
`left`. -/
structure Covers (isCut : Idea → Prop) (root : graph.Node) (progress : Progress graph ρ)
    (seen left : List graph.Node) : Prop where
  nodes : (seen ++ progress.unseen).Perm graph.nodes
  visits : seen.Perm (left ++ openNodes progress.frames)
  start : root ∈ seen
  reached : ∀ node ∈ seen, Relation.ReflTransGen (Leads graph isCut) root node
  closed : ∀ node ∈ left, ¬ isCut (graph.idea node) → ∀ child ∈ graph.children node, child ∈ seen
  frames : ∀ frame ∈ progress.frames, frame.Keeps isCut seen

theorem Frame.Keeps.mono (h : frame.Keeps isCut seen) {more : List graph.Node}
    (hmore : ∀ node ∈ seen, node ∈ more) : frame.Keeps isCut more where
  __ := h
  looked child hchild := (h.looked child hchild).imp_right (hmore child)

namespace Covers

theorem mem_seen_of_frame (h : Covers isCut root ⟨unseen, frame :: outer, result⟩ seen left) :
    frame.node ∈ seen :=
  h.visits.mem_iff.mpr (List.mem_append_right _ List.mem_cons_self)

theorem frames_cons (h : Covers isCut root ⟨unseen, frame :: outer, result⟩ seen left)
    {after : Frame graph ρ} (hafter : after.Keeps isCut seen) :
    ∀ other ∈ after :: outer, other.Keeps isCut seen := by
  intro other hother
  rcases List.mem_cons.mp hother with rfl | hrest
  · exact hafter
  · exact h.frames other (List.mem_cons_of_mem frame hrest)

/-- A child that has been visited before is passed over. -/
theorem pass (h : Covers isCut root ⟨unseen, frame :: outer, result⟩ seen left)
    {rest : List graph.Node} (hchildren : frame.children = child :: rest)
    (hchild : child ∉ unseen) :
    Covers isCut root ⟨unseen, { frame with children := rest } :: outer, result⟩ seen left := by
  have hframe := h.frames frame List.mem_cons_self
  have hseen : child ∈ seen := by
    have hmem := h.nodes.mem_iff.mpr (List.mem_finRange child)
    exact (List.mem_append.mp hmem).resolve_right hchild
  refine { h with frames := h.frames_cons { hframe with looked := ?_, children := ?_ } }
  · intro other hother
    rcases hframe.looked other hother with hrest | hdone
    · rw [hchildren] at hrest
      rcases List.mem_cons.mp hrest with rfl | hlater
      · exact Or.inr hseen
      · exact Or.inl hlater
    · exact Or.inr hdone
  · intro other hother
    exact hframe.children other (hchildren ▸ List.mem_cons_of_mem child hother)

/-- A child that has not been visited before is visited and waits. -/
theorem visit (h : Covers isCut root ⟨unseen, frame :: outer, result⟩ seen left)
    {rest : List graph.Node} (hchildren : frame.children = child :: rest)
    (hchild : child ∈ unseen) {outcome : Outcome ρ}
    (houtcome : outcome.value? = none ↔ isCut (graph.idea child)) :
    Covers isCut root
      ⟨unseen.erase child, { frame with
        children := rest
        waiting := frame.waiting ++ [(child, outcome)] } :: outer, result⟩
      (seen ++ [child]) left := by
  have hframe := h.frames frame List.mem_cons_self
  have hmore : ∀ node ∈ seen, node ∈ seen ++ [child] := fun node => List.mem_append_left [child]
  have hlink : child ∈ graph.children frame.node :=
    hframe.children child (hchildren ▸ List.mem_cons_self)
  constructor
  · rw [List.append_assoc]
    exact ((List.perm_cons_erase hchild).symm.append_left seen).trans h.nodes
  · refine (h.visits.append_right [child]).trans (List.perm_iff_count.mpr fun node => ?_)
    simp only [openNodes, List.count_append, List.count_cons, List.map_append, List.map_cons,
      List.map_nil, List.count_nil]
    omega
  · exact hmore root h.start
  · intro node hnode
    rcases List.mem_append.mp hnode with hold | hnew
    · exact h.reached node hold
    · obtain rfl := List.mem_singleton.mp hnew
      exact (h.reached frame.node h.mem_seen_of_frame).tail ⟨hframe.uncut, hlink⟩
  · exact fun node hnode huncut other hother =>
      hmore other (h.closed node hnode huncut other hother)
  · intro other hother
    rcases List.mem_cons.mp hother with rfl | houter
    · constructor
      · exact hframe.uncut
      · intro other hother
        rcases hframe.looked other hother with hlater | hdone
        · rw [hchildren] at hlater
          rcases List.mem_cons.mp hlater with rfl | hlater
          · exact Or.inr (List.mem_append_right seen (List.mem_singleton_self _))
          · exact Or.inl hlater
        · exact Or.inr (hmore other hdone)
      · exact fun other hother => hframe.children other
          (hchildren ▸ List.mem_cons_of_mem child hother)
      · intro entry hentry
        rcases List.mem_append.mp hentry with hold | hnew
        · exact hframe.waiting entry hold
        · obtain rfl := List.mem_singleton.mp hnew
          exact houtcome
    · exact (h.frames other (List.mem_cons_of_mem frame houter)).mono hmore

/-- A frame keeps its invariant when its first child does not wait any longer. -/
theorem keeps_rest (h : Covers isCut root ⟨unseen, frame :: outer, result⟩ seen left)
    {rest : List (graph.Node × Outcome ρ)} {entry : graph.Node × Outcome ρ}
    (hwaiting : frame.waiting = entry :: rest) :
    Frame.Keeps isCut seen { frame with waiting := rest } where
  __ := h.frames frame List.mem_cons_self
  waiting other hother := (h.frames frame List.mem_cons_self).waiting other
    (hwaiting ▸ List.mem_cons_of_mem entry hother)

/-- The invariant of a walk holds when a visited child is entered. -/
theorem enter (h : Covers isCut root ⟨unseen, frame :: outer, result⟩ seen left)
    {rest : List (graph.Node × Outcome ρ)} {value : ρ}
    (hwaiting : frame.waiting = (child, .proceed value) :: rest) (level : Nat) :
    Covers isCut root ⟨unseen, .enter child level value :: { frame with waiting := rest } :: outer,
      result⟩ seen left := by
  have hframe := h.frames frame List.mem_cons_self
  have huncut : ¬ isCut (graph.idea child) := by
    rw [← hframe.waiting (child, .proceed value) (hwaiting ▸ List.mem_cons_self)]
    simp [Outcome.value?]
  refine { h with visits := ?_, frames := ?_ }
  · refine h.visits.trans (List.perm_iff_count.mpr fun node => ?_)
    simp only [openNodes, Frame.enter, hwaiting, List.count_append, List.count_cons, List.map_cons,
      List.map_nil, List.count_nil]
    omega
  · intro other hother
    rcases List.mem_cons.mp hother with rfl | hother
    · exact ⟨huncut, fun _ => Or.inl, fun _ hchild => hchild, fun _ hentry => by cases hentry⟩
    · exact h.frames_cons (h.keeps_rest hwaiting) other hother

theorem dismiss (h : Covers isCut root ⟨unseen, frame :: outer, result⟩ seen left)
    {rest : List (graph.Node × Outcome ρ)} (hwaiting : frame.waiting = (child, .cut) :: rest)
    (came : Option ρ) :
    Covers isCut root ⟨unseen, Frame.collect { frame with waiting := rest } came :: outer,
      result⟩ seen (left ++ [child]) := by
  have hframe := h.frames frame List.mem_cons_self
  have hcut : isCut (graph.idea child) :=
    (hframe.waiting (child, .cut) (hwaiting ▸ List.mem_cons_self)).mp rfl
  have hkept := h.keeps_rest hwaiting
  refine { h with visits := ?_, closed := ?_, frames := h.frames_cons ⟨hkept.uncut, hkept.looked,
    hkept.children, hkept.waiting⟩ }
  · refine h.visits.trans (List.perm_iff_count.mpr fun node => ?_)
    simp only [openNodes, Frame.collect, hwaiting, List.count_append, List.count_cons,
      List.map_cons, List.count_nil]
    omega
  · intro node hnode huncut
    rcases List.mem_append.mp hnode with hold | hnew
    · exact h.closed node hold huncut
    · obtain rfl := List.mem_singleton.mp hnew
      exact absurd hcut huncut

theorem leave (h : Covers isCut root ⟨unseen, frame :: outer, result⟩ seen left)
    (hchildren : frame.children = []) (hwaiting : frame.waiting = []) (came : Option ρ) :
    Covers isCut root (.leave unseen outer came) seen (left ++ [frame.node]) := by
  have hframe := h.frames frame List.mem_cons_self
  have hvisits : seen.Perm ((left ++ [frame.node]) ++ openNodes outer) := by
    refine h.visits.trans (List.perm_iff_count.mpr fun node => ?_)
    simp only [openNodes, hwaiting, List.count_append, List.count_cons, List.map_nil,
      List.count_nil]
    omega
  have hclosed : ∀ node ∈ left ++ [frame.node], ¬ isCut (graph.idea node) →
      ∀ child ∈ graph.children node, child ∈ seen := by
    intro node hnode huncut child hchild
    rcases List.mem_append.mp hnode with hold | hnew
    · exact h.closed node hold huncut child hchild
    · obtain rfl := List.mem_singleton.mp hnew
      refine (hframe.looked child hchild).resolve_left fun hlater => ?_
      rw [hchildren] at hlater
      cases hlater
  cases outer with
  | nil => exact ⟨h.nodes, hvisits, h.start, h.reached, hclosed, fun _ hnone => by cases hnone⟩
  | cons next rest =>
    refine ⟨h.nodes, hvisits, h.start, h.reached, hclosed, ?_⟩
    intro other hother
    have hnext := h.frames next (List.mem_cons_of_mem frame List.mem_cons_self)
    rcases List.mem_cons.mp hother with rfl | hrest
    · exact ⟨hnext.uncut, hnext.looked, hnext.children, hnext.waiting⟩
    · exact h.frames other (List.mem_cons_of_mem frame (List.mem_cons_of_mem next hrest))

/-- At the end of a walk the nodes visited are those that can be reached. -/
theorem mem_seen_iff (h : Covers isCut root (⟨unseen, [], result⟩ : Progress graph ρ) seen left)
    {node : graph.Node} : node ∈ seen ↔ Relation.ReflTransGen (Leads graph isCut) root node := by
  constructor
  · exact h.reached node
  · intro hpath
    induction hpath with
    | refl => exact h.start
    | tail _ hlast ih =>
      have hleft := h.visits.mem_iff.mp ih
      rw [openNodes, List.append_nil] at hleft
      exact h.closed _ hleft hlast.1 _ hlast.2

theorem nodup_seen {progress : Progress graph ρ} (h : Covers isCut root progress seen left) :
    seen.Nodup :=
  List.Nodup.of_append_left (h.nodes.nodup_iff.mpr (List.nodup_finRange _))

end Covers

/-! ## Runs -/

variable {visitor : Visitor σ ρ} {calls : σ → List (Callback ρ)}

/-- The ideas of some calls are those of the nodes that were visited and finished, in the same
order. -/
def Tells (graph : Graph) (log : List (Callback ρ)) (seen left : List graph.Node) : Prop :=
  log.filterMap Callback.visitedIdea? = seen.map graph.idea ∧
    log.filterMap Callback.finishedIdea? = left.map graph.idea

/-- Writing down a visit tells of one node more that has been seen. -/
theorem Tells.visit {log : List (Callback ρ)} (h : Tells graph log seen left) (node : graph.Node)
    (level : Nat) (above : Option ρ) :
    Tells graph (log ++ [.visited (graph.idea node) level above]) (seen ++ [node]) left := by
  constructor
  · rw [List.filterMap_append, h.1, List.map_append]
    rfl
  · rw [List.filterMap_append, h.2]
    exact List.append_nil _

/-- Writing down an end tells of one node more that has been left. -/
theorem Tells.finish {log : List (Callback ρ)} (h : Tells graph log seen left) (node : graph.Node)
    (level : Nat) (own : Option ρ) (below : List ρ) :
    Tells graph (log ++ [.finished (graph.idea node) level own below]) seen (left ++ [node]) := by
  constructor
  · rw [List.filterMap_append, h.1]
    exact List.append_nil _
  · rw [List.filterMap_append, h.2, List.map_append]
    rfl

/-- One step goes on from nodes visited and finished to more of them. -/
theorem step_covers (hcuts : visitor.CutsBy isCut) (hrecords : visitor.Records calls)
    (order : WalkOrder) (h : Covers isCut root ⟨unseen, frame :: outer, result⟩ seen left) {s : σ}
    (htells : Tells graph (calls s) seen left) :
    ∃ after t seen left, step visitor order unseen frame outer result s = (.ok after, t) ∧
      Covers isCut root after seen left ∧ Tells graph (calls t) seen left := by
  unfold step
  rcases next_cases order frame with ⟨child, rest, hchildren, -, hnext⟩ |
    ⟨child, outcome, rest, hwaiting, -, hnext⟩ | ⟨hchildren, hwaiting, hnext⟩
  · simp only [hnext]
    by_cases hchild : child ∈ unseen
    · obtain ⟨outcome, t, hvisit, houtcome⟩ :=
        hcuts.visit (graph.idea child) (frame.level + 1) (some frame.value) s
      have hcalls := hrecords.visit (graph.idea child) (frame.level + 1) (some frame.value) s
      rw [hvisit] at hcalls
      refine ⟨_, t, _, _, ?_, h.visit hchildren hchild houtcome, hcalls ▸ htells.visit child _ _⟩
      rw [if_pos hchild]
      exact Attempt.bind_eq_ok_iff.mpr ⟨outcome, t, hvisit, rfl⟩
    · refine ⟨_, s, _, _, ?_, h.pass hchildren hchild, htells⟩
      rw [if_neg hchild]
      rfl
  · cases outcome with
    | proceed value =>
      simp only [hnext]
      exact ⟨_, s, _, _, rfl, h.enter hwaiting _, htells⟩
    | cut =>
      simp only [hnext]
      obtain ⟨came, t, hfinish⟩ := hcuts.finish (graph.idea child) (frame.level + 1) none [] s
      have hcalls := hrecords.finish (graph.idea child) (frame.level + 1) none [] s
      rw [hfinish] at hcalls
      exact ⟨_, t, _, _, Attempt.bind_eq_ok_iff.mpr ⟨came, t, hfinish, rfl⟩,
        h.dismiss hwaiting came, hcalls ▸ htells.finish child _ _ _⟩
  · simp only [hnext]
    obtain ⟨came, t, hfinish⟩ :=
      hcuts.finish (graph.idea frame.node) frame.level (some frame.value) frame.results s
    have hcalls := hrecords.finish (graph.idea frame.node) frame.level (some frame.value)
      frame.results s
    rw [hfinish] at hcalls
    exact ⟨_, t, _, _, Attempt.bind_eq_ok_iff.mpr ⟨came, t, hfinish, rfl⟩,
      h.leave hchildren hwaiting came, hcalls ▸ htells.finish frame.node _ _ _⟩

/-- A run goes on to the end, where nothing is open any more. By induction on the steps. -/
theorem run_covers (hcuts : visitor.CutsBy isCut) (hrecords : visitor.Records calls)
    (order : WalkOrder) (progress : Progress graph ρ) {s : σ} {seen left : List graph.Node}
    (h : Covers isCut root progress seen left) (htells : Tells graph (calls s) seen left) :
    ∃ came t unseen seen left, run visitor order progress s = (.ok came, t) ∧
      Covers isCut root (⟨unseen, [], came⟩ : Progress graph ρ) seen left ∧
      Tells graph (calls t) seen left := by
  induction progress using run.induct visitor order generalizing s seen left with
  | case1 unseen result =>
    refine ⟨result, s, unseen, seen, left, ?_, h, htells⟩
    rw [run]
  | case2 unseen frame outer result ih =>
    obtain ⟨after, t, seen, left, hstep, hafter, hlater⟩ :=
      step_covers hcuts hrecords order h htells
    obtain ⟨came, u, unseen, seen, left, hrun, hend, htold⟩ := ih s after t hstep hafter hlater
    refine ⟨came, u, unseen, seen, left, ?_, hend, htold⟩
    rw [run_cons]
    exact Attempt.bind_eq_ok_iff.mpr ⟨after, t, hstep, hrun⟩

end Walk

open Walk

/-- A walk succeeds. It visits each node that it can reach once, and no other, and it finishes the
same nodes, each once. -/
theorem Graph.walk_covers {graph : Graph} {σ ρ : Type} {visitor : Visitor σ ρ}
    {isCut : Idea → Prop} {calls : σ → List (Callback ρ)} (hcuts : visitor.CutsBy isCut)
    (hrecords : visitor.Records calls) (order : WalkOrder) {root : Id} {node : graph.Node}
    (hnode : graph.node? root = some node) {s : σ} (hstart : calls s = []) :
    ∃ came t seen left, graph.walk order visitor root s = (.ok came, t) ∧ seen.Nodup ∧
      (∀ other, other ∈ seen ↔ Relation.ReflTransGen (Leads graph isCut) node other) ∧
      left.Perm seen ∧ Tells graph (calls t) seen left := by
  have hnone : Tells graph (calls s) [] [] := by
    rw [hstart]
    exact ⟨rfl, rfl⟩
  obtain ⟨outcome, t, hvisit, houtcome⟩ := hcuts.visit (graph.idea node) 0 none s
  have hcalls := hrecords.visit (graph.idea node) 0 none s
  rw [hvisit] at hcalls
  have hfirst : Tells graph (calls t) [node] [] := hcalls ▸ hnone.visit node 0 none
  unfold Graph.walk
  simp only [hnode]
  cases outcome with
  | proceed value =>
    have huncut : ¬ isCut (graph.idea node) := by
      rw [← houtcome]
      simp [Outcome.value?]
    have hcovers : Covers isCut node (⟨graph.nodes.erase node, [.enter node 0 value], none⟩ :
        Progress graph ρ) [node] [] := by
      constructor
      · exact (List.perm_cons_erase (List.mem_finRange node)).symm
      · exact List.Perm.refl _
      · exact List.mem_singleton_self node
      · intro other hother
        obtain rfl := List.mem_singleton.mp hother
        exact .refl
      · intro other hother
        cases hother
      · intro frame hframe
        obtain rfl := List.mem_singleton.mp hframe
        exact ⟨huncut, fun _ => Or.inl, fun _ hchild => hchild, fun _ hentry => by cases hentry⟩
    obtain ⟨came, u, unseen, seen, left, hrun, hend, htold⟩ :=
      run_covers hcuts hrecords order _ hcovers hfirst
    have hperm := hend.visits
    rw [openNodes, List.append_nil] at hperm
    exact ⟨came, u, seen, left, Attempt.bind_eq_ok_iff.mpr ⟨_, t, hvisit, hrun⟩, hend.nodup_seen,
      fun _ => hend.mem_seen_iff, hperm.symm, htold⟩
  | cut =>
    have hcut : isCut (graph.idea node) := houtcome.mp rfl
    obtain ⟨came, u, hfinish⟩ := hcuts.finish (graph.idea node) 0 none [] t
    have hlast := hrecords.finish (graph.idea node) 0 none [] t
    rw [hfinish] at hlast
    refine ⟨came, u, [node], [node], Attempt.bind_eq_ok_iff.mpr ⟨_, t, hvisit, hfinish⟩,
      List.nodup_singleton node, fun other => ?_, List.Perm.refl _, hlast ▸
        hfirst.finish node 0 none []⟩
    rw [List.mem_singleton]
    constructor
    · rintro rfl
      exact .refl
    · intro hpath
      rcases hpath.cases_head with hsame | ⟨next, hstep, -⟩
      · exact hsame.symm
      · exact absurd hcut hstep.1

end Deliberation
