import Deliberation.Proofs.Ancestry
import Deliberation.Proofs.Like
import Deliberation.Proofs.Store.Table
import Deliberation.Store.Content
import Mathlib.Logic.Relation

/-!
Threads of replies. A post is reached from the root of its thread by a chain of replies, and its
ancestry should name the posts of this chain. Where it does so for all posts, comparing the
beginnings of ancestries answers whether a post lies below another one.
-/

namespace Deliberation.Store

variable {posts : Table PostRow} {id parent other : Id} {above : List Id}

/-- A post replies to another one. -/
def RepliesTo (posts : Table PostRow) (reply parent : Id) : Prop :=
  ∃ row, posts.get? reply = some row ∧ row.parent = some parent

inductive Thread (posts : Table PostRow) : Id → List Id → Prop where
  | root {id : Id} {row : PostRow} : posts.get? id = some row → row.parent = none →
      Thread posts id []
  | reply {id parent : Id} {above : List Id} : RepliesTo posts id parent →
      Thread posts parent above → Thread posts id (above ++ [parent])

/-- The ancestry of each post names the posts above it. -/
def Threaded (posts : Table PostRow) : Prop :=
  ∀ id row, posts.get? id = some row →
    ∃ above, Thread posts id above ∧ row.ancestry = Ancestry.ofIds above

theorem RepliesTo.parent_eq (h : RepliesTo posts id parent) (hother : RepliesTo posts id other) :
    parent = other := by
  obtain ⟨row, hrow, hparent⟩ := h
  obtain ⟨again, hagain, hotherParent⟩ := hother
  obtain rfl : row = again := Option.some.inj (hrow.symm.trans hagain)
  exact Option.some.inj (hparent.symm.trans hotherParent)

theorem not_repliesTo_of_root {row : PostRow} (hrow : posts.get? id = some row)
    (hfree : row.parent = none) : ¬ RepliesTo posts id parent := by
  rintro ⟨again, hagain, hparent⟩
  obtain rfl : row = again := Option.some.inj (hrow.symm.trans hagain)
  rw [hfree] at hparent
  cases hparent

/-- A post has one thread. -/
theorem Thread.unique {others : List Id} (h : Thread posts id above)
    (hothers : Thread posts id others) : above = others := by
  induction h generalizing others with
  | root hrow hfree =>
    cases hothers with
    | root => rfl
    | reply hreply => exact absurd hreply (not_repliesTo_of_root hrow hfree)
  | reply hreply _ ih =>
    cases hothers with
    | root hrow hfree => exact absurd hreply (not_repliesTo_of_root hrow hfree)
    | reply hagain hrest =>
      obtain rfl := hreply.parent_eq hagain
      rw [ih hrest]

/-- The posts above a post are those that it goes back to by one reply or more. -/
theorem Thread.mem_iff (h : Thread posts id above) :
    other ∈ above ↔ Relation.TransGen (RepliesTo posts) id other := by
  induction h with
  | root hrow hfree =>
    constructor
    · intro hmem
      cases hmem
    · intro hchain
      obtain ⟨parent, hreply, -⟩ := Relation.TransGen.head'_iff.mp hchain
      exact absurd hreply (not_repliesTo_of_root hrow hfree)
  | @reply id parent above hreply _ ih =>
    rw [List.mem_append, List.mem_singleton, ih]
    constructor
    · rintro (hchain | rfl)
      · exact hchain.head hreply
      · exact Relation.TransGen.single hreply
    · intro hchain
      obtain ⟨again, hagain, hrest⟩ := Relation.TransGen.head'_iff.mp hchain
      obtain rfl := hreply.parent_eq hagain
      exact (Relation.reflTransGen_iff_eq_or_transGen.mp hrest).symm

/-- Each post above a post has the thread of that post up to itself. -/
theorem Thread.of_mem (h : Thread posts id above) (hmem : other ∈ above) :
    ∃ upper, Thread posts other upper ∧ upper ++ [other] <+: above := by
  induction h with
  | root => cases hmem
  | @reply id parent above _ hrest ih =>
    rcases List.mem_append.mp hmem with hupper | hlast
    · obtain ⟨upper, hthread, hbegins⟩ := ih hupper
      exact ⟨upper, hthread, hbegins.trans (List.prefix_append above [parent])⟩
    · obtain rfl := List.mem_singleton.mp hlast
      exact ⟨above, hrest, List.prefix_rfl⟩

theorem Thread.exists_row (h : Thread posts id above) : ∃ row, posts.get? id = some row := by
  cases h with
  | root hrow => exact ⟨_, hrow⟩
  | reply hreply =>
    obtain ⟨row, hrow, -⟩ := hreply
    exact ⟨row, hrow⟩

/-- A thread begins with that of each post in it, up to this post. -/
theorem Thread.prefix_iff {upper : List Id} (h : Thread posts id above)
    (hother : Thread posts other upper) : upper ++ [other] <+: above ↔ other ∈ above := by
  constructor
  · intro hbegins
    exact hbegins.subset (List.mem_append_right upper (List.mem_singleton_self other))
  · intro hmem
    obtain ⟨again, hagain, hbegins⟩ := h.of_mem hmem
    rw [hother.unique hagain]
    exact hbegins

theorem isLiteral_of_mem_code {ids : List Id} {c : Char} (h : c ∈ Ancestry.code ids) :
    Like.IsLiteral c := by
  rcases Ancestry.mem_code h with hdigit | rfl | rfl
  · exact Like.isLiteral_of_isDigit hdigit
  · exact ⟨by decide, by decide, by decide⟩
  · exact ⟨by decide, by decide, by decide⟩

/-- The database condition for lying below a post, on ancestries that name ids. -/
theorem accepts_child_iff {upper : List Id} :
    Like.accepts (Ancestry.child (Ancestry.ofIds upper) other ++ "%").toList
        (Ancestry.ofIds above).toList ↔ upper ++ [other] <+: above := by
  have hpattern : (Ancestry.child (Ancestry.ofIds upper) other ++ "%").toList =
      Ancestry.code (upper ++ [other]) ++ ['%'] := by
    rw [← Ancestry.ofIds_append, String.toList_append, Ancestry.toList_ofIds]
    rfl
  rw [hpattern, Ancestry.toList_ofIds, Like.accepts_literal_iff (fun _ => isLiteral_of_mem_code)
    (fun _ => isLiteral_of_mem_code), Ancestry.code_prefix_iff]

/-- Where posts have the ancestries of their threads, lying under a post is replying to it, directly
or not. The empty ancestry lies under nothing, as the pattern is never empty. -/
theorem liesUnder_iff (h : Threaded posts) {root sub : Id} {rootRow subRow : PostRow}
    (hroot : posts.get? root = some rootRow) (hsub : posts.get? sub = some subRow) :
    liesUnder (root, rootRow) (sub, subRow) ↔
      Relation.ReflTransGen (RepliesTo posts) sub root := by
  obtain ⟨upper, hupper, hrootPath⟩ := h root rootRow hroot
  obtain ⟨above, habove, hsubPath⟩ := h sub subRow hsub
  have hbegins := habove.prefix_iff hupper
  rw [habove.mem_iff] at hbegins
  have hempty : subRow.ancestry = "" → ¬ upper ++ [root] <+: above := by
    intro hnone hprefix
    rw [← Ancestry.code_prefix_iff, ← Ancestry.toList_ofIds above, ← hsubPath, hnone] at hprefix
    simp [Ancestry.code] at hprefix
  rw [Relation.reflTransGen_iff_eq_or_transGen, ← hbegins]
  unfold liesUnder
  simp only [Bool.or_eq_true, Bool.and_eq_true, beq_iff_eq, bne_iff_ne, hrootPath]
  constructor
  · rintro (hsame | ⟨-, haccepts⟩)
    · exact Or.inl hsame.symm
    · rw [hsubPath] at haccepts
      exact Or.inr (accepts_child_iff.mp haccepts)
  · rintro (hsame | hprefix)
    · exact Or.inl hsame.symm
    · refine Or.inr ⟨fun hnone => hempty hnone hprefix, ?_⟩
      rw [hsubPath]
      exact accepts_child_iff.mpr hprefix

/-- The ancestry of a post, read as ids, is its thread. -/
theorem Threaded.thread_ids (h : Threaded posts)
    (hrange : ∀ id row, posts.get? id = some row → id.InRange) {row : PostRow}
    (hrow : posts.get? id = some row) : Thread posts id (Ancestry.ids row.ancestry) := by
  obtain ⟨above, hthread, hpath⟩ := h id row hrow
  have hnamed : ∀ named ∈ above, named.InRange := by
    intro named hmem
    obtain ⟨upper, hupper, -⟩ := hthread.of_mem hmem
    obtain ⟨found, hfound⟩ := hupper.exists_row
    exact hrange named found hfound
  rw [hpath, Ancestry.ids_ofIds hnamed]
  exact hthread

/-- The posts of its thread and the post itself are all that a post goes back to. -/
theorem Threaded.mem_ids_iff (h : Threaded posts)
    (hrange : ∀ id row, posts.get? id = some row → id.InRange) {row : PostRow}
    (hrow : posts.get? id = some row) :
    other ∈ Ancestry.ids row.ancestry ++ [id] ↔
      Relation.ReflTransGen (RepliesTo posts) id other := by
  rw [List.mem_append, List.mem_singleton, (h.thread_ids hrange hrow).mem_iff,
    Relation.reflTransGen_iff_eq_or_transGen, or_comm]

theorem RepliesTo.push (h : RepliesTo posts id parent) (row : PostRow) :
    RepliesTo (posts.push row) id parent := by
  obtain ⟨old, hold, hparent⟩ := h
  exact ⟨old, Table.get?_push_of_some hold, hparent⟩

theorem Thread.push (h : Thread posts id above) (row : PostRow) :
    Thread (posts.push row) id above := by
  induction h with
  | root hrow hfree => exact Thread.root (Table.get?_push_of_some hrow) hfree
  | reply hreply _ ih => exact Thread.reply (hreply.push row) ih

theorem threaded_empty : Threaded {} := by
  intro id row h
  simp at h

/-- A post may be added with the ancestry that goes on from the post replied to. -/
theorem Threaded.push (h : Threaded posts) {row : PostRow}
    (hpath : (row.parent = none ∧ row.ancestry = "") ∨
      ∃ parent above, row.parent = some parent ∧ posts.get? parent = some above ∧
        row.ancestry = Ancestry.child above.ancestry parent) : Threaded (posts.push row) := by
  intro id other hother
  rcases Table.get?_push_eq_some_iff.mp hother with ⟨rfl, rfl⟩ | hold
  · rcases hpath with ⟨hfree, hempty⟩ | ⟨parent, parentRow, hparent, hparentRow, hchild⟩
    · exact ⟨[], Thread.root hother hfree, hempty⟩
    · obtain ⟨above, habove, hnames⟩ := h parent parentRow hparentRow
      refine ⟨above ++ [parent], Thread.reply ⟨other, hother, hparent⟩ (habove.push other), ?_⟩
      rw [hchild, hnames, Ancestry.ofIds_append]
  · obtain ⟨above, habove, hnames⟩ := h id other hold
    exact ⟨above, habove.push row, hnames⟩

end Deliberation.Store
