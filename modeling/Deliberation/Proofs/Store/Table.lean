import Deliberation.Store.Table
import Mathlib.Data.List.Nodup
import Mathlib.Logic.Function.Iterate

/-!
What a table holds after each of its operations. A table is read by its row numbers; `get?` is the
one view of a table that the rest of the theory uses, and every other way to look at the rows is
told in terms of it.
-/

namespace Deliberation.Store.Table

variable {ρ : Type} {table : Table ρ} {row : ρ} {id : Id}

/-- The table with one more row, whether or not there is a number left for it. -/
def push (table : Table ρ) (row : ρ) : Table ρ := ⟨table.rows ++ [row]⟩

theorem insert_eq_ok_iff {after : Table ρ} :
    table.insert row = .ok (id, after) ↔
      table.size < capacity ∧ table.nextId = id ∧ table.push row = after := by
  unfold insert push
  split
  · rename_i hfits
    simp [hfits]
  · rename_i hfull
    simp [hfull]

@[simp]
theorem get?_empty : ({} : Table ρ).get? id = none := by
  simp [get?]

/-- A number is the successor of a place in the list of rows, or there is no row with it. -/
theorem place_or_none (table : Table ρ) (id : Id) :
    (∃ place : Nat, id = (place : Int) + 1) ∨ (id < 1 ∧ table.get? id = none) := by
  by_cases hpositive : 1 ≤ id
  · refine Or.inl ⟨(id - 1).toNat, ?_⟩
    have hplace : ((id - 1).toNat : Int) = id - 1 :=
      Int.toNat_of_nonneg (Int.sub_nonneg_of_le hpositive)
    rw [hplace]
    exact (Int.sub_add_cancel id 1).symm
  · exact Or.inr ⟨Int.not_le.mp hpositive, if_neg hpositive⟩

@[simp]
theorem get?_place (place : Nat) : table.get? ((place : Int) + 1) = table.rows[place]? := by
  have hpositive : (1 : Int) ≤ (place : Int) + 1 := by omega
  unfold get?
  rw [if_pos hpositive]
  simp

theorem nextId_eq : table.nextId = (table.rows.length : Int) + 1 := rfl

/-- The numbers in use are those from one up to the next one. -/
theorem exists_get?_iff : (∃ row, table.get? id = some row) ↔ 1 ≤ id ∧ id < table.nextId := by
  rcases place_or_none table id with ⟨place, rfl⟩ | ⟨hlow, hnone⟩
  · rw [get?_place, nextId_eq, ← Option.isSome_iff_exists, isSome_getElem?]
    unfold Id
    omega
  · simp only [hnone, reduceCtorEq, exists_false, false_iff, not_and]
    intro hpositive
    exact absurd hlow (Int.not_lt.mpr hpositive)

theorem lt_nextId (h : table.get? id = some row) : id < table.nextId :=
  (exists_get?_iff.mp ⟨row, h⟩).2

theorem ne_nextId (h : table.get? id = some row) : id ≠ table.nextId :=
  Int.ne_of_lt (lt_nextId h)

@[simp]
theorem get?_nextId : table.get? table.nextId = none := by
  rw [Option.eq_none_iff_forall_ne_some]
  intro row hrow
  exact ne_nextId hrow rfl

/-- A new row gets the next number, and all others keep theirs. -/
theorem get?_push : (table.push row).get? id =
    if id = table.nextId then some row else table.get? id := by
  rcases place_or_none table id with ⟨place, rfl⟩ | ⟨hlow, hnone⟩
  · have hlast : (place : Int) + 1 = (table.rows.length : Int) + 1 ↔ place = table.rows.length := by
      omega
    rw [get?_place, get?_place, nextId_eq, push, List.getElem?_append]
    by_cases hnew : place = table.rows.length
    · simp [hnew]
    · rw [if_neg (mt hlast.mp hnew)]
      split
      · rfl
      · rw [List.getElem?_singleton, if_neg (by omega), List.getElem?_eq_none (by omega)]
  · have hother : id ≠ table.nextId := by
      rw [nextId_eq]
      unfold Id at *
      omega
    rw [if_neg hother, hnone]
    exact if_neg (Int.not_le.mpr hlow)

theorem get?_push_eq_some_iff {other : ρ} : (table.push row).get? id = some other ↔
    (id = table.nextId ∧ other = row) ∨ table.get? id = some other := by
  rw [get?_push]
  split
  · rename_i hlast
    constructor
    · intro h
      exact Or.inl ⟨hlast, (Option.some.inj h).symm⟩
    · rintro (⟨-, rfl⟩ | hold)
      · rfl
      · exact absurd hlast (ne_nextId hold)
  · rename_i hother
    simp [hother]

/-- A row that is there stays when another one is added. -/
theorem get?_push_of_some {other : ρ} (h : table.get? id = some other) :
    (table.push row).get? id = some other :=
  get?_push_eq_some_iff.mpr (Or.inr h)

theorem get?_push_nextId : (table.push row).get? table.nextId = some row :=
  get?_push_eq_some_iff.mpr (Or.inl ⟨rfl, rfl⟩)

@[simp]
theorem size_push : (table.push row).size = table.size + 1 := by
  simp [size, push]

/-- The numbers of a table that has not more rows than it can have are ids. -/
theorem inRange_of_fits (hfits : table.size ≤ capacity) (h : table.get? id = some row) :
    id.InRange := by
  obtain ⟨hfirst, hlast⟩ := exists_get?_iff.mp ⟨row, h⟩
  have hcapacity : (capacity : Int) = Id.greatest := rfl
  unfold Id.InRange Id.least
  rw [nextId_eq] at hlast
  unfold size at hfits
  unfold Id at *
  omega

theorem get?_update {at_ : Id} {change : ρ → ρ} : (table.update at_ change).get? id =
    if id = at_ then (table.get? id).map change else table.get? id := by
  rcases place_or_none table at_ with ⟨place, rfl⟩ | ⟨hlow, hnone⟩
  · have hpositive : (1 : Int) ≤ (place : Int) + 1 := by omega
    have hplace : ((place : Int) + 1 - 1).toNat = place := by omega
    rw [update, if_pos hpositive, hplace]
    rcases place_or_none table id with ⟨other, rfl⟩ | ⟨hlow, hnone⟩
    · have hsame : (other : Int) + 1 = (place : Int) + 1 ↔ place = other := by omega
      simp only [get?_place, List.getElem?_modify, hsame]
      by_cases hhere : place = other
      · simp [hhere]
      · simp [hhere]
    · rw [hnone]
      simp [get?, Int.not_le.mpr hlow]
  · rw [update, if_neg (Int.not_le.mpr hlow)]
    split
    · rename_i hsame
      rw [hsame, hnone]
      rfl
    · rfl

@[simp]
theorem size_update {at_ : Id} {change : ρ → ρ} : (table.update at_ change).size = table.size := by
  unfold update size
  split <;> simp

@[simp]
theorem nextId_update {at_ : Id} {change : ρ → ρ} :
    (table.update at_ change).nextId = table.nextId := by
  rw [nextId, size_update, nextId]

/-- The table with the rows of some numbers changed, one after another. -/
def updateAll (table : Table ρ) (ids : List Id) (change : ρ → ρ) : Table ρ :=
  ids.foldl (fun table id => table.update id change) table

/-- A row is changed as often as its number occurs. -/
theorem get?_updateAll {ids : List Id} {change : ρ → ρ} :
    (table.updateAll ids change).get? id = (table.get? id).map change^[ids.count id] := by
  induction ids generalizing table with
  | nil => simp [updateAll]
  | cons first rest ih =>
    have hstep : (table.updateAll (first :: rest) change) =
        (table.update first change).updateAll rest change := rfl
    rw [hstep, ih, get?_update]
    by_cases hsame : id = first
    · subst hsame
      rw [if_pos rfl, List.count_cons_self, Option.map_map, Function.iterate_succ]
    · rw [if_neg hsame, List.count_cons_of_ne (Ne.symm hsame)]

theorem get?_updateAll_of_notMem {ids : List Id} {change : ρ → ρ} (h : id ∉ ids) :
    (table.updateAll ids change).get? id = table.get? id := by
  rw [get?_updateAll, List.count_eq_zero.mpr h]
  exact Option.map_id_apply

theorem get?_updateAll_of_mem {ids : List Id} {change : ρ → ρ} (hdistinct : ids.Nodup)
    (h : id ∈ ids) : (table.updateAll ids change).get? id = (table.get? id).map change := by
  rw [get?_updateAll, List.count_eq_one_of_mem hdistinct h, Function.iterate_one]

@[simp]
theorem size_updateAll {ids : List Id} {change : ρ → ρ} :
    (table.updateAll ids change).size = table.size := by
  induction ids generalizing table with
  | nil => rfl
  | cons first rest ih =>
    change ((table.update first change).updateAll rest change).size = table.size
    rw [ih, size_update]

@[simp]
theorem nextId_updateAll {ids : List Id} {change : ρ → ρ} :
    (table.updateAll ids change).nextId = table.nextId := by
  rw [nextId, size_updateAll, nextId]

@[simp]
theorem size_mapRows {change : ρ → ρ} : (table.mapRows change).size = table.size :=
  List.length_map _

theorem get?_mapRows {change : ρ → ρ} :
    (table.mapRows change).get? id = (table.get? id).map change := by
  unfold mapRows get?
  split <;> simp

def Every (P : ρ → Prop) (table : Table ρ) : Prop := ∀ id row, table.get? id = some row → P row

theorem every_empty {P : ρ → Prop} : ({} : Table ρ).Every P := by
  intro id row h
  simp at h

/-- A new row with a property keeps that every row has it. -/
theorem Every.push {P : ρ → Prop} (h : table.Every P) (hrow : P row) :
    (table.push row).Every P := by
  intro id other hother
  rcases get?_push_eq_some_iff.mp hother with ⟨-, rfl⟩ | hold
  · exact hrow
  · exact h id other hold

theorem Every.updateAll {P : ρ → Prop} {change : ρ → ρ} (h : table.Every P)
    (hchange : ∀ row, P row → P (change row)) (ids : List Id) :
    (table.updateAll ids change).Every P := by
  intro id row hrow
  rw [get?_updateAll] at hrow
  obtain ⟨old, hold, rfl⟩ := Option.map_eq_some_iff.mp hrow
  generalize ids.count id = times
  induction times with
  | zero => exact h id old hold
  | succ times ih =>
    rw [Function.iterate_succ_apply']
    exact hchange _ ih

theorem Every.update {P : ρ → Prop} {change : ρ → ρ} (h : table.Every P)
    (hchange : ∀ row, P row → P (change row)) (id : Id) : (table.update id change).Every P :=
  h.updateAll hchange [id]

theorem Every.mapRows {P : ρ → Prop} {change : ρ → ρ} (h : table.Every P)
    (hchange : ∀ row, P row → P (change row)) : (table.mapRows change).Every P := by
  intro id row hrow
  rw [get?_mapRows] at hrow
  obtain ⟨old, hold, rfl⟩ := Option.map_eq_some_iff.mp hrow
  exact hchange old (h id old hold)

theorem mem_entries_iff : (id, row) ∈ table.entries ↔ table.get? id = some row := by
  unfold entries
  constructor
  · intro h
    obtain ⟨⟨other, place⟩, hplace, heq⟩ := List.mem_map.mp h
    obtain ⟨rfl, rfl⟩ := Prod.mk.inj heq
    rw [get?_place]
    exact List.mem_zipIdx_iff_getElem?.mp hplace
  · intro h
    rcases place_or_none table id with ⟨place, rfl⟩ | ⟨-, hnone⟩
    · rw [get?_place] at h
      exact List.mem_map.mpr ⟨(row, place), List.mem_zipIdx_iff_getElem?.mpr h, rfl⟩
    · rw [hnone] at h
      cases h

/-- All rows are listed in the order of their numbers. -/
theorem pairwise_entries (table : Table ρ) : (table.entries.map (·.1)).Pairwise (· < ·) := by
  have hplaces : table.entries.map (·.1) =
      (List.range' 0 table.rows.length).map fun place : Nat => (place : Int) + 1 := by
    rw [← List.zipIdx_map_snd, List.map_map, entries, List.map_map]
    rfl
  rw [hplaces, List.pairwise_map]
  refine List.Pairwise.imp ?_ List.pairwise_lt_range'
  intro place other hless
  exact Int.add_lt_add_right (Int.ofNat_lt.mpr hless) 1

/-- Rows of tables, listed in order, are told by what they are. -/
theorem eq_of_mem_iff {other : Table ρ} {entries others : List (Id × ρ)}
    (hentries : entries.Sublist table.entries) (hothers : others.Sublist other.entries)
    (hsame : ∀ entry, entry ∈ entries ↔ entry ∈ others) : entries = others := by
  have hordered : ∀ {table : Table ρ} {entries : List (Id × ρ)}, entries.Sublist table.entries →
      entries.Pairwise fun a b => a.1 < b.1 :=
    fun hsub => (List.pairwise_map.mp (pairwise_entries _)).sublist hsub
  have hdistinct : ∀ {table : Table ρ} {entries : List (Id × ρ)}, entries.Sublist table.entries →
      entries.Nodup :=
    fun hsub => (hordered hsub).imp fun hless hsame => Int.ne_of_lt hless (congrArg Prod.fst hsame)
  refine List.Perm.eq_of_pairwise ?_ (hordered hentries) (hordered hothers)
    ((List.perm_ext_iff_of_nodup (hdistinct hentries) (hdistinct hothers)).mpr hsame)
  exact fun a b _ _ hab hba => absurd hab (Int.lt_asymm hba)

theorem rows_eq_map (table : Table ρ) : table.rows = table.entries.map (·.2) := by
  rw [entries, List.map_map]
  exact (List.zipIdx_map_fst 0 table.rows).symm

theorem mem_rows_iff : row ∈ table.rows ↔ ∃ id, table.get? id = some row := by
  constructor
  · intro h
    obtain ⟨place, hplace⟩ := List.mem_iff_getElem?.mp h
    exact ⟨(place : Int) + 1, by rw [get?_place, hplace]⟩
  · rintro ⟨id, h⟩
    rcases place_or_none table id with ⟨place, rfl⟩ | ⟨-, hnone⟩
    · rw [get?_place] at h
      exact List.mem_of_getElem? h
    · rw [hnone] at h
      cases h

end Deliberation.Store.Table
