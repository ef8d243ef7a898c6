import Deliberation.Proofs.Closure.Linked

/-!
Links that come and go. Four requests edit links one by one: each of them removes some and adds one
at most, and that is all that whoever looks for live links can see of it. What follows for children
and for closures is told of such edits in general, and does not look into the requests again.
-/

namespace Deliberation

namespace Store

variable {now : Timestamp} {store before after : Store} {removed : List Id} {added : Option LinkRow}

structure Relinks (removed : List Id) (added : Option LinkRow) (before after : Store) : Prop where
  consistent : before.Consistent
  consistentAfter : after.Consistent
  live : ∀ row, added = some row → row.isLive
  links : ∀ link row, row.isLive → (after.links.get? link = some row ↔
    (link = before.links.nextId ∧ added = some row) ∨
      (before.links.get? link = some row ∧ link ∉ removed))

/-- The links that are live after some were removed are the others. -/
theorem get?_removeLinks_iff {link : Id} {row : LinkRow} (hlive : row.isLive) :
    (store.removeLinks now removed).links.get? link = some row ↔
      store.links.get? link = some row ∧ link ∉ removed := by
  constructor
  · exact fun h => get?_removeLinks h hlive
  · rintro ⟨hrow, hkept⟩
    exact (Table.get?_updateAll_of_notMem hkept).trans hrow

theorem relinks_removed (hbefore : store.Sound) (hafter : after.Sound)
    (hlinks : after.links = (store.removeLinks now removed).links) :
    store.Relinks removed none after where
  consistent := hbefore.toConsistent
  consistentAfter := hafter.toConsistent
  live row h := by cases h
  links link row hlive := by
    rw [hlinks, get?_removeLinks_iff hlive]
    simp

/-- Removing links and adding one relinks the store with a new link. -/
theorem relinks_added {new : LinkRow} (hbefore : store.Sound) (hafter : after.Sound)
    (hlive : new.isLive) (hlinks : after.links = (store.removeLinks now removed).links.push new) :
    store.Relinks removed (some new) after where
  consistent := hbefore.toConsistent
  consistentAfter := hafter.toConsistent
  live row h := by
    obtain rfl := Option.some.inj h
    exact hlive
  links link row hrowLive := by
    have hnext : (store.removeLinks now removed).links.nextId = store.links.nextId :=
      Table.nextId_updateAll
    rw [hlinks, Table.get?_push_eq_some_iff, get?_removeLinks_iff hrowLive, hnext,
      Option.some.injEq, eq_comm (a := row)]

namespace Relinks

/-- The ends of a live link. -/
theorem linked_iff (h : before.Relinks removed added after) {near far : Id} :
    after.Linked near far ↔ (∃ row, added = some row ∧ row.source = near ∧ row.target = far) ∨
      ∃ link row, before.links.get? link = some row ∧ row.isLive ∧ link ∉ removed ∧
        row.source = near ∧ row.target = far := by
  constructor
  · rintro ⟨link, row, hrow, hlive, hends⟩
    rcases (h.links link row hlive).mp hrow with ⟨-, hadded⟩ | ⟨hold, hkept⟩
    · exact Or.inl ⟨row, hadded, hends⟩
    · exact Or.inr ⟨link, row, hold, hlive, hkept, hends⟩
  · rintro (⟨row, hadded, hends⟩ | ⟨link, row, hold, hlive, hkept, hends⟩)
    · have hlive := h.live row hadded
      exact ⟨_, row, (h.links _ row hlive).mpr (Or.inl ⟨rfl, hadded⟩), hlive, hends⟩
    · exact ⟨link, row, (h.links link row hlive).mpr (Or.inr ⟨hold, hkept⟩), hlive, hends⟩

end Relinks

end Store

open Store

namespace Request.Effect

variable {now : Timestamp} {store after : Store}

theorem relinks_createLink {new : NewLink} {receipt : Receipt Id}
    (heffect : Effect now store (.createLink new) receipt after) (h : store.Sound) :
    receipt.reply = store.links.nextId ∧ store.Relinks [] (some (.ofNew now new)) after := by
  have hafter := heffect.sound h
  cases heffect with
  | createLink => exact ⟨rfl, @relinks_added now _ _ [] _ h hafter rfl rfl⟩

theorem relinks_tombstoneLink {link : Id} {receipt : Receipt Unit}
    (heffect : Effect now store (.tombstoneLink link) receipt after) (h : store.Sound) :
    store.Relinks [link] none after := by
  have hafter := heffect.sound h
  cases heffect with
  | tombstoneLink => exact relinks_removed h hafter rfl

/-- The link that takes the part of another one has its ends and its type. -/
theorem relinks_reorderLink {link : Id} {order : Place} {receipt : Receipt Id}
    (heffect : Effect now store (.reorderLink link order) receipt after) (h : store.Sound) :
    receipt.reply = store.links.nextId ∧ ∃ row, store.links.get? link = some row ∧ row.isLive ∧
      store.Relinks [link] (some (.ofNew now ⟨row.source, row.target, order, row.type⟩)) after := by
  have hafter := heffect.sound h
  cases heffect with
  | reorderLink _ hlink hlive => exact ⟨rfl, _, hlink, hlive, relinks_added h hafter rfl rfl⟩

theorem relinks_moveIdea {moved parent : Id} {order : Place} {receipt : Receipt Id}
    (heffect : Effect now store (.moveIdea moved parent order) receipt after) (h : store.Sound) :
    receipt.reply = store.links.nextId ∧ store.Relinks ((store.inbound moved).map (·.1))
      (some (.ofNew now { source := parent, target := moved, order })) after := by
  have hafter := heffect.sound h
  cases heffect with
  | moveIdea => exact ⟨rfl, relinks_added h hafter rfl rfl⟩

end Request.Effect

end Deliberation
