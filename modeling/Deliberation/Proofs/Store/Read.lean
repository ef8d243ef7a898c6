import Deliberation.Proofs.Attempt
import Deliberation.Proofs.Store.Table
import Deliberation.Store.Write

/-!
What a successful read says about the rows. A row is read as a value exactly if its cells hold the
fields of that value; a requirement is met exactly if the rows that it asks about are there and in
order. A read fails with nothing but a fault of the database.
-/

namespace Deliberation.Store

theorem Cell.read_eq_ok_iff {α : Type} {fault : String → DatabaseFault} {cell : Cell α} {a : α} :
    cell.read fault = .ok a ↔ cell = .legible a := by
  cases cell with
  | legible value => simp [Cell.read]
  | illegible text => simp [Cell.read]

theorem readDate_eq_ok_iff {column : Nat} {cell : Cell Timestamp} {date : Timestamp} :
    readDate column cell = .ok date ↔ cell = .legible date :=
  Cell.read_eq_ok_iff

theorem option_mapM_eq_ok_iff {ε α β : Type} {f : α → Except ε β} {x : Option α} {y : Option β} :
    x.mapM f = .ok y ↔
      (x = none ∧ y = none) ∨ ∃ a b, x = some a ∧ y = some b ∧ f a = .ok b := by
  cases x with
  | none =>
    rw [Option.mapM_none, except_pure_eq_ok_iff]
    simp [eq_comm]
  | some a =>
    simp only [Option.mapM_some, Functor.map, Except.map]
    cases hf : f a with
    | error e => simp [hf]
    | ok b => simp [hf, eq_comm]

/-- A date that may be missing is read if it is missing or legible. -/
theorem mapM_readDate_eq_ok_iff {column : Nat} {cell : Option (Cell Timestamp)}
    {date : Option Timestamp} :
    cell.mapM (readDate column) = .ok date ↔ cell = date.map Cell.legible := by
  rw [option_mapM_eq_ok_iff]
  cases date with
  | none => simp
  | some instant => simp [readDate_eq_ok_iff]

theorem Version.read_whole_eq_ok_iff {column n version : Nat} :
    (Version.whole n).read column = .ok version ↔ version = n ∧ n < 4294967296 := by
  simp only [Version.read]
  split
  · rename_i hfits
    simp only [Except.ok.injEq, Int.toNat_natCast]
    omega
  · rename_i hlarge
    simp only [reduceCtorEq, false_iff, not_and]
    omega

theorem Version.read_whole_eq_error {column n : Nat} (h : 4294967296 ≤ n) :
    (Version.whole n).read column = .error (.outOfRange column n) := by
  simp only [Version.read]
  exact if_neg (by omega)

/-- Versions that can be told lie far below the end of the whole numbers that a column holds. -/
theorem Version.next_whole {n : Nat} (h : n < 4294967296) :
    (Version.whole n).next = .whole (n + 1 : Nat) := by
  have hbelow : (n : Int) < Id.greatest := by
    unfold Id.greatest
    omega
  simp only [next, after, if_pos hbelow, Int.natCast_add, Int.cast_ofNat_Int]

/-- The next version is told as the next number, if it can be told. -/
theorem Version.read_next_whole {column n version : Nat} (hfits : n < 4294967296)
    (h : (Version.whole n).next.read column = .ok version) :
    version = n + 1 ∧ n + 1 < 4294967296 := by
  rw [next_whole hfits] at h
  exact read_whole_eq_ok_iff.mp h

/-- An idea is read if every cell of its row is legible, and it is what they say. -/
theorem IdeaRow.read_eq_ok_iff {id : Id} {row : IdeaRow} {idea : Idea} :
    row.read id = .ok idea ↔
      row.kind = .legible idea.kind ∧ row.created = .legible idea.created ∧
      row.modified = .legible idea.modified ∧ row.tombstone = idea.tombstone.map Cell.legible ∧
      row.version.read 10 = .ok idea.version ∧ idea.id = id ∧ idea.discussion = row.discussion ∧
      idea.shortTitle = row.shortTitle ∧ idea.longTitle = row.longTitle ∧
      idea.definition = row.definition ∧ idea.hidden = row.hidden := by
  unfold IdeaRow.read
  simp only [except_bind_eq_ok_iff, except_pure_eq_ok_iff, Cell.read_eq_ok_iff, readDate_eq_ok_iff,
    mapM_readDate_eq_ok_iff]
  constructor
  · rintro ⟨kind, hkind, created, hcreated, modified, hmodified, tombstone, htombstone, version,
      hversion, rfl⟩
    exact ⟨hkind, hcreated, hmodified, htombstone, hversion, rfl, rfl, rfl, rfl, rfl, rfl⟩
  · rintro ⟨hkind, hcreated, hmodified, htombstone, hversion, rfl, hdiscussion, hshort, hlong,
      hdefinition, hhidden⟩
    refine ⟨_, hkind, _, hcreated, _, hmodified, _, htombstone, _, hversion, ?_⟩
    rw [← hdiscussion, ← hshort, ← hlong, ← hdefinition, ← hhidden]

theorem LinkRow.read_eq_ok_iff {id : Id} {row : LinkRow} {link : Link} :
    row.read id = .ok link ↔
      row.created = .legible link.created ∧ row.tombstone = link.tombstone.map Cell.legible ∧
      link.id = id ∧ link.source = row.source ∧ link.target = row.target ∧
      link.order = row.order ∧ link.type = row.type := by
  unfold LinkRow.read
  simp only [except_bind_eq_ok_iff, except_pure_eq_ok_iff, readDate_eq_ok_iff,
    mapM_readDate_eq_ok_iff]
  constructor
  · rintro ⟨created, hcreated, tombstone, htombstone, rfl⟩
    exact ⟨hcreated, htombstone, rfl, rfl, rfl, rfl, rfl⟩
  · rintro ⟨hcreated, htombstone, rfl, hsource, htarget, horder, htype⟩
    refine ⟨_, hcreated, _, htombstone, ?_⟩
    rw [← hsource, ← htarget, ← horder, ← htype]

/-- A post is read if its kind and its date are legible. -/
theorem PostRow.read_eq_ok_iff {id : Id} {row : PostRow} {post : Post} :
    row.read id = .ok post ↔
      row.kind = .legible post.kind ∧ row.created = .legible post.created ∧ post.id = id ∧
      post.discussion = row.discussion ∧ post.creator = row.creator ∧ post.parent = row.parent ∧
      post.ancestry = row.ancestry ∧ post.subject = row.subject ∧ post.body = row.body ∧
      post.hidden = row.hidden := by
  unfold PostRow.read
  simp only [except_bind_eq_ok_iff, except_pure_eq_ok_iff, Cell.read_eq_ok_iff, readDate_eq_ok_iff]
  constructor
  · rintro ⟨kind, hkind, created, hcreated, rfl⟩
    exact ⟨hkind, hcreated, rfl, rfl, rfl, rfl, rfl, rfl, rfl, rfl⟩
  · rintro ⟨hkind, hcreated, rfl, hdiscussion, hcreator, hparent, hancestry, hsubject,
      hbody, hhidden⟩
    refine ⟨_, hkind, _, hcreated, ?_⟩
    rw [← hdiscussion, ← hcreator, ← hparent, ← hancestry, ← hsubject, ← hbody, ← hhidden]

/-- An idea is read as deleted exactly if its row is not live. -/
theorem IdeaRow.isTombstone_of_read {id : Id} {row : IdeaRow} {idea : Idea}
    (h : row.read id = .ok idea) : idea.isTombstone = !row.isLive := by
  obtain ⟨-, -, -, htombstone, -⟩ := IdeaRow.read_eq_ok_iff.mp h
  simp [Idea.isTombstone, IdeaRow.isLive, htombstone]

theorem LinkRow.isTombstone_of_read {id : Id} {row : LinkRow} {link : Link}
    (h : row.read id = .ok link) : link.isTombstone = !row.isLive := by
  obtain ⟨-, htombstone, -⟩ := LinkRow.read_eq_ok_iff.mp h
  simp [Link.isTombstone, LinkRow.isLive, htombstone]

theorem answer_eq_ok_iff {α : Type} {x : Except DatabaseFault α} {a : α} :
    answer x = .ok a ↔ x = .ok a := by
  cases x with
  | error fault => simp [answer]
  | ok b => simp [answer]

def IsFault (e : Error) : Prop := ∃ fault, e = .database fault

theorem answer_failsOnly {α : Type} (x : Except DatabaseFault α) :
    FailsOnly IsFault (answer x) := by
  intro e h
  cases x with
  | error fault =>
    cases h
    exact ⟨fault, rfl⟩
  | ok a => cases h

theorem find_eq_ok_some_iff {ρ α : Type} {table : Table ρ}
    {read : Id → ρ → Except DatabaseFault α} {id : Id} {a : α} :
    find table read id = .ok (some a) ↔ ∃ row, table.get? id = some row ∧ read id row = .ok a := by
  simp [find, answer_eq_ok_iff, option_mapM_eq_ok_iff]

/-- A row that is there is found, if anything is. -/
theorem exists_read_of_find {ρ α : Type} {table : Table ρ} {read : Id → ρ → Except DatabaseFault α}
    {id : Id} {row : ρ} {found : Option α} (hrow : table.get? id = some row)
    (h : find table read id = .ok found) : ∃ a, found = some a ∧ read id row = .ok a := by
  rw [find, answer_eq_ok_iff, hrow, option_mapM_eq_ok_iff] at h
  rcases h with ⟨habsent, -⟩ | ⟨_, a, hsame, hfound, hread⟩
  · cases habsent
  · obtain rfl := Option.some.inj hsame
    exact ⟨a, hfound, hread⟩

/-- What each row is read as decides what a list of rows is read as. -/
theorem map_of_readAll {ρ α γ : Type} {read : Id → ρ → Except DatabaseFault α}
    {entries : List (Id × ρ)} {values : List α} {told : α → γ} {held : Id × ρ → γ}
    (hread : ∀ id row a, read id row = .ok a → told a = held (id, row))
    (h : readAll read entries = .ok values) : values.map told = entries.map held := by
  have hall := answer_eq_ok_iff.mp h
  clear h
  induction entries generalizing values with
  | nil =>
    rw [List.mapM_nil, except_pure_eq_ok_iff] at hall
    subst hall
    rfl
  | cons entry rest ih =>
    simp only [List.mapM_cons, except_bind_eq_ok_iff, except_pure_eq_ok_iff] at hall
    obtain ⟨first, hfirst, others, hothers, rfl⟩ := hall
    rw [List.map_cons, List.map_cons, hread _ _ _ hfirst, ih hothers]

/-- Choosing among rows before they are read is choosing among what is read. -/
theorem readAll_filter {ρ α : Type} {read : Id → ρ → Except DatabaseFault α}
    {entries : List (Id × ρ)} {values : List α} {keep : Id × ρ → Bool} {kept : α → Bool}
    (hread : ∀ id row a, read id row = .ok a → kept a = keep (id, row))
    (h : readAll read entries = .ok values) :
    readAll read (entries.filter keep) = .ok (values.filter kept) := by
  have hall := answer_eq_ok_iff.mp h
  rw [readAll, answer_eq_ok_iff]
  clear h
  induction entries generalizing values with
  | nil =>
    rw [List.mapM_nil, except_pure_eq_ok_iff] at hall
    subst hall
    rfl
  | cons entry rest ih =>
    simp only [List.mapM_cons, except_bind_eq_ok_iff, except_pure_eq_ok_iff] at hall
    obtain ⟨first, hfirst, others, hothers, rfl⟩ := hall
    have hrest := ih hothers
    have hsame := hread _ _ _ hfirst
    by_cases hkeep : keep entry
    · rw [List.filter_cons_of_pos hkeep, List.filter_cons_of_pos (hsame.trans hkeep)]
      simp only [List.mapM_cons, except_bind_eq_ok_iff, except_pure_eq_ok_iff]
      exact ⟨first, hfirst, _, hrest, rfl⟩
    · rw [List.filter_cons_of_neg hkeep, List.filter_cons_of_neg (by rw [hsame]; exact hkeep)]
      exact hrest

/-- Rows that have been changed are read as changed values, if each of them is. -/
theorem readAll_map {ρ α : Type} {read : Id → ρ → Except DatabaseFault α} {entries : List (Id × ρ)}
    {values : List α} {change : Id × ρ → Id × ρ} {told : α → α}
    (hread : ∀ entry ∈ entries, ∀ a, read entry.1 entry.2 = .ok a →
      read (change entry).1 (change entry).2 = .ok (told a))
    (h : readAll read entries = .ok values) :
      readAll read (entries.map change) = .ok (values.map told) := by
  have hall := answer_eq_ok_iff.mp h
  rw [readAll, answer_eq_ok_iff]
  clear h
  induction entries generalizing values with
  | nil =>
    rw [List.mapM_nil, except_pure_eq_ok_iff] at hall
    subst hall
    rfl
  | cons entry rest ih =>
    simp only [List.mapM_cons, except_bind_eq_ok_iff, except_pure_eq_ok_iff] at hall
    obtain ⟨first, hfirst, others, hothers, rfl⟩ := hall
    have hrest := ih (fun entry hentry => hread entry (List.mem_cons_of_mem _ hentry)) hothers
    simp only [List.map_cons, List.mapM_cons, except_bind_eq_ok_iff, except_pure_eq_ok_iff]
    exact ⟨_, hread entry List.mem_cons_self first hfirst, _, hrest, rfl⟩

/-- What is read of the first row is the first of what is read of all rows. -/
theorem answer_head?_of_readAll {ρ α : Type} {read : Id → ρ → Except DatabaseFault α}
    {entries : List (Id × ρ)} {values : List α} (h : readAll read entries = .ok values) :
    answer (entries.head?.mapM fun entry => read entry.1 entry.2) = .ok values.head? := by
  have hall := answer_eq_ok_iff.mp h
  rw [answer_eq_ok_iff, option_mapM_eq_ok_iff]
  cases entries with
  | nil =>
    rw [List.mapM_nil, except_pure_eq_ok_iff] at hall
    subst hall
    exact Or.inl ⟨rfl, rfl⟩
  | cons entry rest =>
    simp only [List.mapM_cons, except_bind_eq_ok_iff, except_pure_eq_ok_iff] at hall
    obtain ⟨first, hfirst, others, -, rfl⟩ := hall
    exact Or.inr ⟨entry, first, rfl, rfl, hfirst⟩

theorem mem_of_readAll {ρ α : Type} {read : Id → ρ → Except DatabaseFault α}
    {entries : List (Id × ρ)} {values : List α} (h : readAll read entries = .ok values)
    {value : α} (hvalue : value ∈ values) :
    ∃ entry ∈ entries, read entry.1 entry.2 = .ok value := by
  have hall := answer_eq_ok_iff.mp h
  clear h
  induction entries generalizing values with
  | nil =>
    rw [List.mapM_nil, except_pure_eq_ok_iff] at hall
    subst hall
    cases hvalue
  | cons entry rest ih =>
    simp only [List.mapM_cons, except_bind_eq_ok_iff, except_pure_eq_ok_iff] at hall
    obtain ⟨first, hfirst, others, hothers, rfl⟩ := hall
    rcases List.mem_cons.mp hvalue with rfl | hrest
    · exact ⟨entry, List.mem_cons_self, hfirst⟩
    · obtain ⟨found, hfound, hread⟩ := ih hrest hothers
      exact ⟨found, List.mem_cons_of_mem entry hfound, hread⟩

variable {store : Store} {id : Id}

theorem isLiveIdea_iff {id : Id} :
    store.isLiveIdea id ↔ ∃ row, store.ideas.get? id = some row ∧ row.isLive := by
  unfold isLiveIdea
  cases store.ideas.get? id with
  | none => simp
  | some row => simp

/-- A live idea of a discussion has a row without a tombstone that names the discussion. -/
theorem isLiveIdeaOf_iff {discussion : Id} : store.isLiveIdeaOf discussion id ↔
    ∃ row, store.ideas.get? id = some row ∧ row.isLive ∧ row.discussion = discussion := by
  unfold isLiveIdeaOf
  cases store.ideas.get? id with
  | none => simp
  | some row => simp

theorem mem_liveLinks_iff {link : Id} {row : LinkRow} :
    (link, row) ∈ store.liveLinks ↔ store.links.get? link = some row ∧ row.isLive := by
  simp [liveLinks, Table.mem_entries_iff]

theorem requireIdea_eq_ok_iff {idea : Idea} : store.requireIdea id = .ok idea ↔
    ∃ row, store.ideas.get? id = some row ∧ row.read id = .ok idea := by
  unfold requireIdea
  rw [except_bind_eq_ok_iff]
  constructor
  · rintro ⟨found, hfind, h⟩
    cases found with
    | none => cases h
    | some other =>
      cases h
      exact find_eq_ok_some_iff.mp hfind
  · intro h
    exact ⟨some idea, find_eq_ok_some_iff.mpr h, rfl⟩

theorem requireLiveIdea_eq_ok_iff {idea : Idea} : store.requireLiveIdea id = .ok idea ↔
    ∃ row, store.ideas.get? id = some row ∧ row.read id = .ok idea ∧ row.isLive := by
  unfold requireLiveIdea
  simp only [except_bind_eq_ok_iff, requireIdea_eq_ok_iff]
  constructor
  · rintro ⟨other, ⟨row, hrow, hread⟩, h⟩
    split at h
    · cases h
    · rename_i hlive
      cases h
      rw [IdeaRow.isTombstone_of_read hread] at hlive
      exact ⟨row, hrow, hread, by simpa using hlive⟩
  · rintro ⟨row, hrow, hread, hlive⟩
    refine ⟨idea, ⟨row, hrow, hread⟩, ?_⟩
    simp [IdeaRow.isTombstone_of_read hread, hlive]

theorem requireLiveLink_eq_ok_iff {link : Link} : store.requireLiveLink id = .ok link ↔
    ∃ row, store.links.get? id = some row ∧ row.read id = .ok link ∧ row.isLive := by
  unfold requireLiveLink
  rw [except_bind_eq_ok_iff]
  constructor
  · rintro ⟨found, hfind, h⟩
    cases found with
    | none => cases h
    | some other =>
      obtain ⟨row, hrow, hread⟩ := find_eq_ok_some_iff.mp hfind
      simp only [LinkRow.isTombstone_of_read hread] at h
      split at h
      · cases h
      · rename_i hlive
        cases h
        exact ⟨row, hrow, hread, by simpa using hlive⟩
  · rintro ⟨row, hrow, hread, hlive⟩
    refine ⟨some link, find_eq_ok_some_iff.mpr ⟨row, hrow, hread⟩, ?_⟩
    simp [LinkRow.isTombstone_of_read hread, hlive]

theorem requirePost_eq_ok_iff {post : Post} : store.requirePost id = .ok post ↔
    ∃ row, store.posts.get? id = some row ∧ row.read id = .ok post := by
  unfold requirePost
  rw [except_bind_eq_ok_iff]
  constructor
  · rintro ⟨found, hfind, h⟩
    cases found with
    | none => cases h
    | some other =>
      cases h
      exact find_eq_ok_some_iff.mp hfind
  · intro h
    exact ⟨some post, find_eq_ok_some_iff.mpr h, rfl⟩

theorem requireDiscussion_eq_ok_iff {u : Unit} : store.requireDiscussion id = .ok u ↔
    ∃ row, store.discussions.get? id = some row := by
  unfold requireDiscussion
  rw [← Option.isSome_iff_exists]
  split
  · rename_i hthere
    simp [hthere]
  · rename_i hmissing
    simp [hmissing]

end Deliberation.Store
