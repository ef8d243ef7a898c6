import Deliberation.Proofs.Closure.Relink
import Deliberation.Proofs.Session.Snapshot
import Deliberation.Proofs.Store.Deletion

/-!
The children of an idea when links come and go. A link never changes its place: it is removed, and
another one with a greater id takes its part. So a new link stands behind all older ones that have
the same number, and the links that are left keep the order in which they stood.
-/

namespace Deliberation

/-- The idea as it is told when one more modification of `source` has been counted. -/
def Idea.counted (now : Timestamp) (source : Id) (idea : Idea) : Idea :=
  if idea.id = source then { idea with
    modified := now
    version := idea.version + 1 }
  else idea

namespace Store

/-- Link `a` has its place before link `b`: its number is less, or the numbers are the same and it
is the older one. -/
def Precedes (a b : Id × LinkRow) : Prop :=
  a.2.order.units < b.2.order.units ∨ a.2.order.units = b.2.order.units ∧ a.1 < b.1

/-- Some links become others by the insertion of a new one, right behind the last one whose number
is not greater. -/
def IsInsertion (new : Id × LinkRow) (links others : List (Id × LinkRow)) : Prop :=
  ∃ front back, links = front ++ back ∧ others = front ++ new :: back ∧
    (∀ entry ∈ front, entry.2.order.units ≤ new.2.order.units) ∧
    ∀ entry ∈ back, new.2.order.units < entry.2.order.units

variable {now : Timestamp} {store before after : Store} {removed : List Id} {added : Option LinkRow}
  {new : LinkRow} {links others : List (Id × LinkRow)} {a b entry : Id × LinkRow} {idea source : Id}

theorem Precedes.asymm (h : Precedes a b) : ¬ Precedes b a := by
  unfold Precedes Id at *
  omega

theorem Precedes.irrefl (a : Id × LinkRow) : ¬ Precedes a a := fun h => h.asymm h

theorem nodup_of_pairwise_precedes (h : links.Pairwise Precedes) : links.Nodup := by
  refine h.imp fun {a b} hab => ?_
  rintro rfl
  exact Precedes.irrefl a hab

/-- There is one way only to put links in order. -/
theorem eq_of_pairwise_precedes (hlinks : links.Pairwise Precedes)
    (hothers : others.Pairwise Precedes) (h : ∀ entry, entry ∈ links ↔ entry ∈ others) :
    links = others := by
  refine List.Perm.eq_of_pairwise (fun a b _ _ hab hba => absurd hba hab.asymm) hlinks hothers ?_
  exact (List.perm_ext_iff_of_nodup (nodup_of_pairwise_precedes hlinks)
    (nodup_of_pairwise_precedes hothers)).mpr h

theorem nodup_childLinks (store : Store) (idea : Id) :
    ((store.childLinks idea).map (·.1)).Nodup := by
  have hperm := (List.mergeSort_perm (store.liveLinks.filter fun entry =>
    entry.2.source == idea && store.isLiveIdea entry.2.target) isChildOrder).map (·.1)
  rw [childLinks, hperm.nodup_iff]
  exact (nodup_of_sublist_entries (List.filter_sublist.trans List.filter_sublist)).imp Int.ne_of_lt

/-- The links to the children stand in order, and none of them could take the place of another. -/
theorem IsOrderly.pairwise_precedes (h : store.IsOrderly) (idea : Id) :
    (store.childLinks idea).Pairwise Precedes := by
  have hdistinct : (store.childLinks idea).Pairwise fun a b => a.1 ≠ b.1 :=
    List.pairwise_map.mp (store.nodup_childLinks idea)
  refine ((h.pairwise_childLinks idea).and hdistinct).imp fun {a b} hab => ?_
  unfold Precedes
  unfold Id at *
  omega

/-- Where a list in order has one member more than another one, and this is younger than all others,
it is inserted. -/
theorem isInsertion_of_mem_iff {new : Id × LinkRow} (hlinks : links.Pairwise Precedes)
    (hothers : others.Pairwise Precedes) (hyoungest : ∀ entry ∈ links, entry.1 < new.1)
    (h : ∀ entry, entry ∈ others ↔ entry = new ∨ entry ∈ links) : IsInsertion new links others := by
  obtain ⟨front, back, rfl⟩ := List.append_of_mem ((h new).mpr (Or.inl rfl))
  have hrest : ∀ entry, entry ∈ front ++ back ↔ entry ∈ links := by
    intro entry
    have hdistinct := (List.perm_middle.nodup_iff.mp (nodup_of_pairwise_precedes hothers))
    have hfound := List.perm_middle.mem_iff.symm.trans (h entry)
    rw [List.mem_cons] at hfound
    by_cases hnew : entry = new
    · subst hnew
      exact iff_of_false (List.nodup_cons.mp hdistinct).1 fun hold => Int.lt_irrefl _
        (hyoungest entry hold)
    · rwa [or_iff_right hnew, or_iff_right hnew] at hfound
  rw [List.pairwise_append, List.pairwise_cons] at hothers
  obtain ⟨hfront, ⟨hnext, hback⟩, hacross⟩ := hothers
  refine ⟨front, back, ?_, rfl, fun entry hin => ?_, fun entry hin => ?_⟩
  · refine eq_of_pairwise_precedes hlinks ?_ fun entry => (hrest entry).symm
    exact List.pairwise_append.mpr
      ⟨hfront, hback, fun a ha b hb => hacross a ha b (List.mem_cons_of_mem _ hb)⟩
  · have hprecedes := hacross entry hin _ List.mem_cons_self
    unfold Precedes at hprecedes
    omega
  · have hprecedes := hnext entry hin
    have holder := hyoungest entry ((hrest entry).mp (List.mem_append_right _ hin))
    unfold Precedes at hprecedes
    unfold Id at *
    omega

theorem nodup_liveLinks (store : Store) : store.liveLinks.Nodup :=
  List.Nodup.of_map _ ((nodup_of_sublist_entries List.filter_sublist).imp Int.ne_of_lt)

/-- A live link can be told apart from all other ones by its id. -/
theorem liveLinks_perm_cons {link : Id} {row : LinkRow} (hrow : store.links.get? link = some row)
    (hlive : row.isLive) :
    store.liveLinks.Perm ((link, row) :: store.liveLinks.filter fun entry => entry.1 ∉ [link]) := by
  have hother : (link, row) ∉ store.liveLinks.filter fun entry => entry.1 ∉ [link] := by
    rw [List.mem_filter, decide_eq_true_eq, List.mem_singleton]
    exact fun h => h.2 rfl
  refine (List.perm_ext_iff_of_nodup store.nodup_liveLinks
    (List.nodup_cons.mpr ⟨hother, store.nodup_liveLinks.filter _⟩)).mpr fun entry => ?_
  rw [List.mem_cons, List.mem_filter, decide_eq_true_eq, List.mem_singleton]
  constructor
  · intro hentry
    by_cases hid : entry.1 = link
    · refine Or.inl (Prod.ext hid ?_)
      obtain ⟨hfound, -⟩ := mem_liveLinks_iff.mp hentry
      exact Option.some.inj (hfound.symm.trans (hid ▸ hrow))
    · exact Or.inr ⟨hentry, hid⟩
  · rintro (rfl | ⟨hentry, -⟩)
    · exact mem_liveLinks_iff.mpr ⟨hrow, hlive⟩
    · exact hentry

/-- Live links of a consistent store lead to live ideas, so that each of them is one to a child. -/
theorem Consistent.mem_childLinks_iff (h : store.Consistent) :
    entry ∈ store.childLinks idea ↔ entry ∈ store.liveLinks ∧ entry.2.source = idea := by
  rw [childLinks, List.mem_mergeSort, List.mem_filter, Bool.and_eq_true, beq_iff_eq]
  refine and_congr_right fun hentry => and_iff_left ?_
  obtain ⟨hrow, hlive⟩ := mem_liveLinks_iff.mp hentry
  obtain ⟨-, child, -, hchild, -, hchildLive, -⟩ := h.links _ _ hrow hlive
  exact isLiveIdea_iff.mpr ⟨child, hchild, hchildLive⟩

namespace Relinks

/-- After links were removed and one added, the live ones are those that were left and the new one.
-/
theorem mem_liveLinks_iff (h : before.Relinks removed added after) : entry ∈ after.liveLinks ↔
    (entry.1 = before.links.nextId ∧ added = some entry.2) ∨
      (entry ∈ before.liveLinks ∧ entry.1 ∉ removed) := by
  rw [Store.mem_liveLinks_iff, Store.mem_liveLinks_iff]
  constructor
  · rintro ⟨hrow, hlive⟩
    exact ((h.links _ _ hlive).mp hrow).imp_right fun ⟨hold, hkept⟩ => ⟨⟨hold, hlive⟩, hkept⟩
  · rintro (⟨hid, hadded⟩ | ⟨⟨hrow, hlive⟩, hkept⟩)
    · have hlive := h.live _ hadded
      exact ⟨(h.links _ _ hlive).mpr (Or.inl ⟨hid, hadded⟩), hlive⟩
    · exact ⟨(h.links _ _ hlive).mpr (Or.inr ⟨hrow, hkept⟩), hlive⟩

theorem mem_childLinks_iff (h : before.Relinks removed added after) :
    entry ∈ after.childLinks idea ↔
      (entry.1 = before.links.nextId ∧ added = some entry.2 ∧ entry.2.source = idea) ∨
        (entry ∈ before.childLinks idea ∧ entry.1 ∉ removed) := by
  rw [h.consistentAfter.mem_childLinks_iff, h.consistent.mem_childLinks_iff, h.mem_liveLinks_iff,
    or_and_right, and_assoc, and_right_comm]

/-- Where no link was added, the links that are left keep their order. -/
theorem childLinks_eq (h : before.Relinks removed (some new) after) (hbefore : before.IsOrderly)
    (hafter : after.IsOrderly) (hidea : idea ≠ new.source) :
    after.childLinks idea = (before.childLinks idea).filter fun entry => entry.1 ∉ removed := by
  refine eq_of_pairwise_precedes (hafter.pairwise_precedes idea)
    ((hbefore.pairwise_precedes idea).filter _) fun entry => ?_
  rw [h.mem_childLinks_iff, List.mem_filter, decide_eq_true_eq, Option.some.injEq]
  refine or_iff_right ?_
  rintro ⟨-, rfl, hsource⟩
  exact hidea hsource.symm

/-- A link that is added is inserted among those that are left of the same idea. -/
theorem isInsertion (h : before.Relinks removed (some new) after) (hbefore : before.IsOrderly)
    (hafter : after.IsOrderly) : IsInsertion (before.links.nextId, new)
      ((before.childLinks new.source).filter fun entry => entry.1 ∉ removed)
      (after.childLinks new.source) := by
  refine isInsertion_of_mem_iff ((hbefore.pairwise_precedes _).filter _)
    (hafter.pairwise_precedes _) (fun entry hentry => ?_) fun entry => ?_
  · have hlive := h.consistent.mem_childLinks_iff.mp (List.mem_filter.mp hentry).1
    exact Table.lt_nextId (Store.mem_liveLinks_iff.mp hlive.1).1
  · rw [h.mem_childLinks_iff, List.mem_filter, decide_eq_true_eq, Prod.ext_iff, Option.some.injEq]
    refine or_congr_left ⟨fun ⟨hid, hrow, _⟩ => ⟨hid, hrow.symm⟩,
      fun ⟨hid, hrow⟩ => ⟨hid, hrow.symm, ?_⟩⟩
    rw [show entry.2 = new from hrow]

/-- The live links afterwards are the one that was added and those that are left. -/
theorem liveLinks_perm (h : before.Relinks removed (some new) after) : after.liveLinks.Perm
    ((before.links.nextId, new) :: before.liveLinks.filter fun entry => entry.1 ∉ removed) := by
  have hfresh : (before.links.nextId, new) ∉ before.liveLinks.filter fun entry => entry.1 ∉
      removed := fun hold =>
    Int.lt_irrefl _ (Table.lt_nextId (Store.mem_liveLinks_iff.mp (List.mem_filter.mp hold).1).1)
  refine (List.perm_ext_iff_of_nodup after.nodup_liveLinks
    (List.nodup_cons.mpr ⟨hfresh, before.nodup_liveLinks.filter _⟩)).mpr fun entry => ?_
  rw [h.mem_liveLinks_iff, List.mem_cons, List.mem_filter, decide_eq_true_eq, Prod.ext_iff,
    Option.some.injEq, eq_comm (a := new)]

/-- A link with the same ends takes the part of the one that was removed. -/
theorem ends_perm_of_replaced {link : Id} {row : LinkRow}
    (h : before.Relinks [link] (some new) after) (hrow : before.links.get? link = some row)
    (hlive : row.isLive) (hsource : new.source = row.source) (htarget : new.target = row.target) :
    (after.liveLinks.map fun entry => (entry.2.source, entry.2.target)).Perm
      (before.liveLinks.map fun entry => (entry.2.source, entry.2.target)) := by
  refine (h.liveLinks_perm.map _).trans
    (List.Perm.trans ?_ ((liveLinks_perm_cons hrow hlive).map _).symm)
  rw [List.map_cons, List.map_cons, hsource, htarget]

end Relinks

/-! ## What is told of the children -/

/-- A counted modification shows in the date and the version of an idea, and nowhere else. -/
theorem IdeaRow.read_bumped {id : Id} {row : IdeaRow} {idea : Idea} {column version : Nat}
    (h : row.read id = .ok idea) (hversion : row.version.next.read column = .ok version) :
    (row.bumped now).read id = .ok { idea with
      modified := now
      version := idea.version + 1 } := by
  obtain ⟨hkind, hcreated, -, htombstone, hread, hfields⟩ := read_eq_ok_iff.mp h
  obtain ⟨hwhole, hbumped⟩ := IdeaRow.bumped_of_read now hread
  have hfits := (Version.read_eq_ok hread).2
  rw [hwhole] at hversion
  have hnext := (Version.read_next_whole hfits hversion).2
  rw [hbumped]
  exact read_eq_ok_iff.mpr ⟨hkind, hcreated, rfl, htombstone,
    Version.read_whole_eq_ok_iff.mpr ⟨rfl, hnext⟩, hfields⟩

/-- Changing one idea changes its own entry in a list of ideas. -/
theorem ideaEntries_touched {change : IdeaRow → IdeaRow}
    (hideas : after.ideas = before.ideas.update source change) (ids : List Id) :
    after.ideaEntries ids = (before.ideaEntries ids).map fun entry =>
      if entry.1 = source then (entry.1, change entry.2) else entry := by
  rw [ideaEntries, ideaEntries, hideas, List.map_filterMap]
  refine List.filterMap_congr fun id _ => ?_
  rw [Table.get?_update]
  by_cases hsource : id = source
  · simp [hsource, Option.map_map, Function.comp_def]
  · simp [hsource, Function.comp_def]

/-- Counting a modification changes what is told of one idea, and not which ideas are told. -/
theorem children_touched {row : IdeaRow} {version : Nat} {ideas : List Idea}
    (hlinks : after.childLinks idea = before.childLinks idea)
    (hideas : after.ideas = before.ideas.update source (IdeaRow.bumped now))
    (hrow : before.ideas.get? source = some row)
    (hversion : row.version.next.read 0 = .ok version) (h : before.children idea = .ok ideas) :
    after.children idea = .ok (ideas.map (Idea.counted now source)) := by
  rw [children, hlinks, ideaEntries_touched hideas]
  refine readAll_map (fun entry hentry child hchild => ?_) h
  obtain ⟨id, -, hlisted⟩ := List.mem_filterMap.mp hentry
  obtain ⟨found, hfound, rfl⟩ := Option.map_eq_some_iff.mp hlisted
  have hid : child.id = id := (IdeaRow.read_eq_ok_iff.mp hchild).2.2.2.2.2.1
  by_cases hsource : id = source
  · subst hsource
    obtain rfl := Option.some.inj (hfound.symm.trans hrow)
    rw [if_pos rfl, Idea.counted, if_pos hid]
    exact IdeaRow.read_bumped hchild hversion
  · rw [if_neg hsource, Idea.counted, if_neg (hid.trans_ne hsource)]
    exact hchild

/-! ## What requests do to the lists of children -/

structure InsertsChild (now : Timestamp) (new : NewLink) (link : Id) (before after : Store) :
    Prop where
  inserted :
    IsInsertion (link, .ofNew now new) (before.childLinks new.source) (after.childLinks new.source)
  others : ∀ idea, idea ≠ new.source → after.childLinks idea = before.childLinks idea

structure ReordersChild (now : Timestamp) (old : Id) (row : LinkRow) (order : Place) (link : Id)
    (before after : Store) : Prop where
  found : before.links.get? old = some row
  live : row.isLive
  inserted : IsInsertion (link, .ofNew now ⟨row.source, row.target, order, row.type⟩)
    ((before.childLinks row.source).filter fun entry => entry.1 ≠ old) (after.childLinks row.source)
  others : ∀ idea, idea ≠ row.source → after.childLinks idea = before.childLinks idea
  /-- Other ideas have the same children. Where the source is among these, its modification has been
  counted. -/
  told : ∀ idea, idea ≠ row.source → ∃ children, before.children idea = .ok children ∧
    after.children idea = .ok (children.map (Idea.counted now row.source))
  ends : (after.liveLinks.map fun entry => (entry.2.source, entry.2.target)).Perm
    (before.liveLinks.map fun entry => (entry.2.source, entry.2.target))
  closures : before.SameClosures after

structure MovesChild (now : Timestamp) (moved parent : Id) (order : Place) (link : Id)
    (before after : Store) : Prop where
  inserted : IsInsertion (link, .ofNew now { source := parent, target := moved, order })
    ((before.childLinks parent).filter fun entry => entry.2.target ≠ moved)
    (after.childLinks parent)
  others : ∀ idea, idea ≠ parent →
    after.childLinks idea = (before.childLinks idea).filter fun entry => entry.2.target ≠ moved

/-- The links of an idea without those that lead to a moved one. -/
theorem filter_childLinks_inbound (h : store.Consistent) (idea moved : Id) :
    ((store.childLinks idea).filter fun entry => entry.1 ∉ (store.inbound moved).map (·.1)) =
      (store.childLinks idea).filter fun entry => entry.2.target ≠ moved := by
  refine List.filter_congr fun entry hentry => decide_eq_decide.mpr (not_congr ?_)
  obtain ⟨hrow, hlive⟩ := mem_liveLinks_iff.mp (h.mem_childLinks_iff.mp hentry).1
  rw [mem_map_inbound_iff]
  constructor
  · rintro ⟨row, hfound, -, htarget⟩
    obtain rfl := Option.some.inj (hrow.symm.trans hfound)
    exact htarget
  · exact fun htarget => ⟨entry.2, hrow, hlive, htarget⟩

/-- Where one link is removed, the lists that it is not in stay as they are. -/
theorem filter_childLinks_of_other {link : Id} {row : LinkRow} (h : store.Consistent)
    (hrow : store.links.get? link = some row) (hidea : idea ≠ row.source) :
    ((store.childLinks idea).filter fun entry => entry.1 ∉ [link]) = store.childLinks idea := by
  refine List.filter_eq_self.mpr fun entry hentry => decide_eq_true ?_
  obtain ⟨hlive, hsource⟩ := h.mem_childLinks_iff.mp hentry
  rw [List.mem_singleton]
  rintro rfl
  obtain rfl := Option.some.inj ((mem_liveLinks_iff.mp hlive).1.symm.trans hrow)
  exact hidea hsource.symm

end Store

open Store

namespace Request.Effect

variable {now : Timestamp} {store after : Store}

/-- Creating a link inserts it among the children of its source, behind what is in the same place.
-/
theorem insertsChild {new : NewLink} {receipt : Receipt Id}
    (heffect : Effect now store (.createLink new) receipt after) (h : store.Sound)
    (horderly : store.IsOrderly) : store.InsertsChild now new receipt.reply after := by
  obtain ⟨hreply, hrelinks⟩ := heffect.relinks_createLink h
  have hafter := heffect.isOrderly horderly
  have hkept (idea : Id) : ((store.childLinks idea).filter fun entry => entry.1 ∉ []) =
      store.childLinks idea :=
    List.filter_eq_self.mpr fun _ _ => decide_eq_true List.not_mem_nil
  rw [hreply]
  refine ⟨?_, fun idea hidea => ?_⟩
  · have hinserted := hrelinks.isInsertion horderly hafter
    rwa [hkept] at hinserted
  · rw [hrelinks.childLinks_eq horderly hafter hidea, hkept]

/-- Reordering a link takes it out and inserts another one for it. -/
theorem reordersChild {old : Id} {order : Place} {receipt : Receipt Id}
    (heffect : Effect now store (.reorderLink old order) receipt after) (h : store.Sound)
    (horderly : store.IsOrderly) (hlegible : store.Legible) (hversions : store.TellsLiveVersions) :
    ∃ row, store.ReordersChild now old row order receipt.reply after := by
  obtain ⟨hreply, row, hfound, hlive, hrelinks⟩ := heffect.relinks_reorderLink h
  have hafter := heffect.isOrderly horderly
  have hothers : ∀ idea, idea ≠ row.source → after.childLinks idea = store.childLinks idea := by
    intro idea hidea
    rw [hrelinks.childLinks_eq horderly hafter hidea,
      filter_childLinks_of_other h.toConsistent hfound hidea]
  rw [hreply]
  refine ⟨row, hfound, hlive, ?_, hothers, fun idea hidea => ?_,
    hrelinks.ends_perm_of_replaced hfound hlive rfl rfl,
    hrelinks.sameClosures_of_replaced hfound hlive rfl rfl⟩
  · have hother (links : List (Id × LinkRow)) :
        (links.filter fun entry => entry.1 ∉ [old]) = links.filter fun entry => entry.1 ≠ old :=
      List.filter_congr fun entry _ => decide_eq_decide.mpr (not_congr List.mem_singleton)
    have hinserted := hrelinks.isInsertion horderly hafter
    rwa [hother] at hinserted
  · obtain ⟨children, hchildren⟩ := hlegible.exists_children hversions idea
    refine ⟨children, hchildren, ?_⟩
    cases heffect with
    | reorderLink _ hlink _ hrow hversion =>
      obtain rfl := Option.some.inj (hlink.symm.trans hfound)
      exact children_touched (hothers idea hidea) rfl hrow hversion hchildren

/-- Moving an idea inserts one link among the children of the new parent and takes the others out.
-/
theorem movesChild {moved parent : Id} {order : Place} {receipt : Receipt Id}
    (heffect : Effect now store (.moveIdea moved parent order) receipt after) (h : store.Sound)
    (horderly : store.IsOrderly) : store.MovesChild now moved parent order receipt.reply after := by
  obtain ⟨hreply, hrelinks⟩ := heffect.relinks_moveIdea h
  have hafter := heffect.isOrderly horderly
  rw [hreply]
  refine ⟨?_, fun idea hidea => ?_⟩
  · have hinserted := hrelinks.isInsertion horderly hafter
    rwa [filter_childLinks_inbound h.toConsistent] at hinserted
  · rw [hrelinks.childLinks_eq horderly hafter hidea, filter_childLinks_inbound h.toConsistent]

end Request.Effect

end Deliberation
