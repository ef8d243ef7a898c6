import Deliberation.Proofs.Closure.Agree
import Deliberation.Proofs.Store.Relink

/-!
What an edit of links does to closures. A path may use an added link many times, but only its way to
the first use and its way on from the last one count. A path that has lost its way to an idea goes
on below it as before.
-/

namespace Deliberation

/-! ## Paths with one step more, and without the steps to one idea -/

section

variable {α : Type} {r : α → α → Prop} {s t a b : α}

/-- A path with one link more is an old path, or it leads to the new link and goes on from its end.
Later uses of the link can be left out. -/
theorem transGen_insert_iff : Relation.TransGen (fun x y => (x = s ∧ y = t) ∨ r x y) a b ↔
    Relation.TransGen r a b ∨ Relation.ReflTransGen r a s ∧ Relation.ReflTransGen r t b := by
  constructor
  · intro hpath
    induction hpath with
    | single hstep =>
      rcases hstep with ⟨rfl, rfl⟩ | hold
      · exact Or.inr ⟨.refl, .refl⟩
      · exact Or.inl (.single hold)
    | tail _ hstep ih =>
      rcases hstep with ⟨rfl, rfl⟩ | hold
      · rcases ih with hbefore | ⟨hfirst, -⟩
        · exact Or.inr ⟨hbefore.to_reflTransGen, .refl⟩
        · exact Or.inr ⟨hfirst, .refl⟩
      · rcases ih with hbefore | ⟨hfirst, hlast⟩
        · exact Or.inl (hbefore.tail hold)
        · exact Or.inr ⟨hfirst, hlast.tail hold⟩
  · have hkept : ∀ x y, r x y → (x = s ∧ y = t) ∨ r x y := fun _ _ => Or.inr
    rintro (hpath | ⟨hfirst, hlast⟩)
    · exact Relation.TransGen.mono hkept _ _ hpath
    · have hway : Relation.ReflTransGen (fun x y => (x = s ∧ y = t) ∨ r x y) a s :=
        Relation.ReflTransGen.mono hkept _ _ hfirst
      have hon : Relation.ReflTransGen (fun x y => (x = s ∧ y = t) ∨ r x y) t b :=
        Relation.ReflTransGen.mono hkept _ _ hlast
      exact (Relation.TransGen.tail' hway (Or.inl ⟨rfl, rfl⟩)).trans_left hon

theorem reflTransGen_insert_iff : Relation.ReflTransGen (fun x y => (x = s ∧ y = t) ∨ r x y) a b ↔
    Relation.ReflTransGen r a b ∨ Relation.ReflTransGen r a s ∧ Relation.ReflTransGen r t b := by
  rw [Relation.reflTransGen_iff_eq_or_transGen, transGen_insert_iff, ← or_assoc,
    ← Relation.reflTransGen_iff_eq_or_transGen]

/-- A path either never steps to `m`, or it can be cut there. -/
theorem reflTransGen_cut_iff (m : α) : Relation.ReflTransGen r a b ↔
    Relation.ReflTransGen (fun x y => r x y ∧ y ≠ m) a b ∨
      Relation.ReflTransGen r a m ∧ Relation.ReflTransGen r m b := by
  constructor
  · intro hpath
    induction hpath with
    | refl => exact Or.inl .refl
    | @tail y z hpath hstep ih =>
      by_cases hm : z = m
      · subst hm
        exact Or.inr ⟨hpath.tail hstep, .refl⟩
      · rcases ih with haround | ⟨hfirst, hlast⟩
        · exact Or.inl (haround.tail ⟨hstep, hm⟩)
        · exact Or.inr ⟨hfirst, hlast.tail hstep⟩
  · rintro (haround | ⟨hfirst, hlast⟩)
    · exact Relation.ReflTransGen.mono (fun _ _ hstep => And.left hstep) _ _ haround
    · exact hfirst.trans hlast

/-- Where a path starts, it never has to come back to. -/
theorem reflTransGen_onward_iff :
    Relation.ReflTransGen (fun x y => r x y ∧ y ≠ a) a b ↔ Relation.ReflTransGen r a b := by
  constructor
  · exact Relation.ReflTransGen.mono (fun _ _ hstep => And.left hstep) _ _
  · intro hpath
    induction hpath with
    | refl => exact .refl
    | @tail y z _ hstep ih =>
      by_cases hback : z = a
      · subst hback
        exact .refl
      · exact ih.tail ⟨hstep, hback⟩

end

namespace Store

variable {before after : Store} {removed : List Id} {new : LinkRow} {moved : Id}

/-! ## Edits that change no closure -/

/-- In two stores a strategy finds the same below an idea, and above any ideas, and it logs the
same. -/
def SameClosures (before after : Store) : Prop :=
  ∀ (strategy : ClosureStrategy) (inclusive : Bool),
    (∀ root, strategy.descendants after root inclusive =
      strategy.descendants before root inclusive) ∧
    ∀ targets, strategy.ancestors after targets inclusive =
      strategy.ancestors before targets inclusive

/-- Another live link has the same ends. -/
def HasTwin (store : Store) (link : Id) : Prop :=
  ∃ twin row other, store.links.get? link = some row ∧ store.links.get? twin = some other ∧
    other.isLive ∧ twin ≠ link ∧ other.source = row.source ∧ other.target = row.target

theorem agreeOn_edges_of_linked (hbefore : before.Consistent) (hafter : after.Consistent)
    (hlinked : ∀ near far, after.Linked near far ↔ before.Linked near far) (direction : Direction) :
    Closure.AgreeOn (fun _ => True) (before.edges direction) (after.edges direction) where
  closed _ _ _ _ := trivial
  same near far _ := by
    rw [mem_edges_iff, mem_edges_iff]
    cases direction with
    | forward => rw [hbefore.leadsTo_forward_iff, hafter.leadsTo_forward_iff, hlinked]
    | backward => rw [hbefore.leadsTo_backward_iff, hafter.leadsTo_backward_iff, hlinked]

/-- Stores with the same links between ideas have the same closures, both ways. -/
theorem sameClosures_of_linked (hbefore : before.Consistent) (hafter : after.Consistent)
    (hlinked : ∀ near far, after.Linked near far ↔ before.Linked near far) :
    before.SameClosures after := by
  have hedges := agreeOn_edges_of_linked hbefore hafter hlinked
  exact fun strategy inclusive =>
    ⟨fun _ => descendants_congr (hedges .forward) strategy trivial inclusive,
      fun _ => ancestors_congr (hedges .backward) strategy (fun _ _ => trivial) inclusive⟩

namespace Relinks

/-- An edit changes no closure if another link has the ends of each one that is removed, and if a
link that is added has ends that were linked before. -/
theorem sameClosures {added : Option LinkRow} (h : before.Relinks removed added after)
    (hremoved : ∀ link ∈ removed, ∀ row, before.links.get? link = some row →
      after.Linked row.source row.target)
    (hadded : ∀ row, added = some row → before.Linked row.source row.target) :
      before.SameClosures after := by
  refine sameClosures_of_linked h.consistent h.consistentAfter fun near far =>
    ⟨fun hlinked => ?_, ?_⟩
  · rcases h.linked_iff.mp hlinked with ⟨row, hrow, rfl, rfl⟩ | ⟨link, row, hrow, hlive, -, hends⟩
    · exact hadded row hrow
    · exact ⟨link, row, hrow, hlive, hends⟩
  · rintro ⟨link, row, hrow, hlive, rfl, rfl⟩
    by_cases hgone : link ∈ removed
    · exact hremoved link hgone row hrow
    · exact h.linked_iff.mpr (Or.inr ⟨link, row, hrow, hlive, hgone, rfl, rfl⟩)

/-- A link with a live twin is not missed. -/
theorem sameClosures_of_twin {link : Id} (h : before.Relinks [link] none after)
    (htwin : before.HasTwin link) : before.SameClosures after := by
  obtain ⟨twin, row, other, hrow, hother, hlive, hapart, hsource, htarget⟩ := htwin
  refine h.sameClosures (fun gone hgone old hold => ?_) fun added hadded => by cases hadded
  obtain rfl := List.mem_singleton.mp hgone
  obtain rfl := Option.some.inj (hrow.symm.trans hold)
  exact h.linked_iff.mpr
    (Or.inr ⟨twin, other, hother, hlive, by simpa using hapart, hsource, htarget⟩)

/-- It makes no difference to closures which place a link has. -/
theorem sameClosures_of_replaced {link : Id} {row : LinkRow}
    (h : before.Relinks [link] (some new) after) (hrow : before.links.get? link = some row)
    (hlive : row.isLive) (hsource : new.source = row.source) (htarget : new.target = row.target) :
    before.SameClosures after := by
  refine h.sameClosures (fun gone hgone old hold => ?_) fun added hadded => ?_
  · obtain rfl := List.mem_singleton.mp hgone
    obtain rfl := Option.some.inj (hrow.symm.trans hold)
    exact h.linked_iff.mpr (Or.inl ⟨new, rfl, hsource, htarget⟩)
  · obtain rfl := Option.some.inj hadded
    exact ⟨link, row, hrow, hlive, hsource.symm, htarget.symm⟩

/-! ## A link that is added, and an idea that is moved -/

theorem linked_added (h : before.Relinks [] (some new) after) :
    after.Linked = fun near far => (near = new.source ∧ far = new.target) ∨
      before.Linked near far := by
  funext near far
  refine propext (h.linked_iff.trans (or_congr ?_ ?_))
  · simp [eq_comm]
  · simp [Linked]

/-- What a new link leads to, and what is below that, is below where the link starts, and below all
that this is below. -/
theorem exists_descendants_added (h : before.Relinks [] (some new) after)
    (strategy : ClosureStrategy) (start : Id) :
    ∃ below beyond, (strategy.descendants before start false).result = .ok below ∧
      (strategy.descendants before new.target false).result = .ok beyond ∧
      (strategy.descendants after start false).result =
        .ok (if start = new.source ∨ new.source ∈ below then
          ascending (below ++ new.target :: beyond) else below) := by
  obtain ⟨below, hbelow, hordered, hmem⟩ := h.consistent.exists_descendants strategy start
  obtain ⟨beyond, hbeyond, -, hmemBeyond⟩ := h.consistent.exists_descendants strategy new.target
  obtain ⟨found, hfound, horderedFound, hmemFound⟩ :=
    h.consistentAfter.exists_descendants strategy start
  have hreached : start = new.source ∨ new.source ∈ below ↔
      Relation.ReflTransGen before.Linked start new.source := by
    rw [hmem, Relation.reflTransGen_iff_eq_or_transGen, eq_comm]
  have hafter : ∀ far, far ∈ found ↔ far ∈ below ∨
      (start = new.source ∨ new.source ∈ below) ∧ (far = new.target ∨ far ∈ beyond) := by
    intro far
    rw [hmemFound, h.linked_added, transGen_insert_iff, hreached, hmem, hmemBeyond,
      ← Relation.reflTransGen_iff_eq_or_transGen]
  refine ⟨below, beyond, hbelow, hbeyond, hfound.trans (congrArg Except.ok ?_)⟩
  split
  · rename_i hstart
    refine eq_of_pairwise_lt horderedFound (ascending_pairwise _) fun far => ?_
    rw [hafter, mem_ascending, List.mem_append, List.mem_cons, and_iff_right hstart]
  · rename_i hstart
    refine eq_of_pairwise_lt horderedFound hordered fun far => ?_
    rw [hafter, or_iff_left (fun hnew => hstart hnew.1)]

/-- A move takes all links to the moved idea away and puts the new one in their place. -/
theorem linked_moved (h : before.Relinks ((before.inbound moved).map (·.1)) (some new) after)
    (htarget : new.target = moved) :
    after.Linked = fun near far => (near = new.source ∧ far = moved) ∨
      (before.Linked near far ∧ far ≠ moved) := by
  funext near far
  refine propext (h.linked_iff.trans (or_congr ?_ ⟨?_, ?_⟩))
  · simp [htarget, eq_comm]
  · rintro ⟨link, row, hrow, hlive, hkept, rfl, rfl⟩
    refine ⟨⟨link, row, hrow, hlive, rfl, rfl⟩, fun hmoved => hkept ?_⟩
    exact mem_map_inbound_iff.mpr ⟨row, hrow, hlive, hmoved⟩
  · rintro ⟨⟨link, row, hrow, hlive, rfl, rfl⟩, hother⟩
    refine ⟨link, row, hrow, hlive, fun hgone => ?_, rfl, rfl⟩
    obtain ⟨old, hold, -, hmoved⟩ := mem_map_inbound_iff.mp hgone
    obtain rfl := Option.some.inj (hrow.symm.trans hold)
    exact hother hmoved

/-- Below an idea that has been moved there is what was there before. Where the new parent was not
below it, nothing is lost either: below whatever the new parent is below, there is all that was
there before, and all that is below the moved idea. -/
theorem exists_descendants_moved
    (h : before.Relinks ((before.inbound moved).map (·.1)) (some new) after)
    (htarget : new.target = moved) (strategy : ClosureStrategy) (upper : Id) :
    ∃ above below, (strategy.descendants before upper true).result = .ok above ∧
      (strategy.descendants before moved true).result = .ok below ∧
      (strategy.descendants after moved true).result = .ok below ∧
      (new.source ∈ above → new.source ∉ below →
        (strategy.descendants after upper true).result = .ok (ascending (above ++ below))) := by
  obtain ⟨above, habove, -, hmemAbove⟩ := h.consistent.exists_inclusive_descendants strategy upper
  obtain ⟨below, hbelow, hordered, hmemBelow⟩ :=
    h.consistent.exists_inclusive_descendants strategy moved
  obtain ⟨again, hagain, horderedAgain, hmemAgain⟩ :=
    h.consistentAfter.exists_inclusive_descendants strategy moved
  obtain ⟨found, hfound, horderedFound, hmemFound⟩ :=
    h.consistentAfter.exists_inclusive_descendants strategy upper
  rw [h.linked_moved htarget] at hmemAgain hmemFound
  refine ⟨above, below, habove, hbelow, hagain.trans (congrArg Except.ok ?_), fun hunder hbeside =>
    hfound.trans (congrArg Except.ok ?_)⟩
  · refine eq_of_pairwise_lt horderedAgain hordered fun far => ?_
    rw [hmemAgain, reflTransGen_insert_iff, reflTransGen_onward_iff, hmemBelow]
    exact or_iff_left_of_imp And.right
  · have hway : Relation.ReflTransGen (fun near far => before.Linked near far ∧ far ≠ moved) upper
        new.source := by
      rw [hmemAbove] at hunder
      rw [hmemBelow] at hbeside
      exact ((reflTransGen_cut_iff moved).mp hunder).resolve_right fun hcut => hbeside hcut.2
    refine eq_of_pairwise_lt horderedFound (ascending_pairwise _) fun far => ?_
    have hcut : Relation.ReflTransGen before.Linked upper far ↔ _ := reflTransGen_cut_iff moved
    rw [hmemFound, reflTransGen_insert_iff, reflTransGen_onward_iff, and_iff_right hway,
      mem_ascending, List.mem_append, hmemAbove, hmemBelow, hcut, or_assoc]
    exact or_congr_right (or_iff_right_of_imp And.right).symm

end Relinks

end Store

end Deliberation
