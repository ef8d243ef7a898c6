import Deliberation.Text.Preview
import Mathlib.Data.List.Basic
import Mathlib.Data.List.TakeWhile

/-!
Blanks in plain text. To put the words of a text together with one space between two of them is to
replace every maximal run of blanks by one space and to trim both ends. Done once more it changes
nothing.
-/

namespace Deliberation.Text

/-- A list that is split at two places is split in the one place, or behind it, or in front of
it. -/
theorem append_cons_cases {α : Type} {front behind other later : List α} {a b : α}
    (h : front ++ a :: behind = other ++ b :: later) : (front = other ∧ a = b ∧ behind = later) ∨
      (∃ gap, other = front ++ a :: gap ∧ behind = gap ++ b :: later) ∨
      ∃ gap, front = other ++ b :: gap ∧ later = gap ++ a :: behind := by
  rcases List.append_eq_append_iff.mp h with ⟨gap, hother, hgap⟩ | ⟨gap, hfront, hgap⟩
  · cases gap with
    | nil => exact Or.inl ⟨by simpa using hother.symm, by simpa using hgap⟩
    | cons c gap =>
      obtain ⟨rfl, hbehind⟩ := List.cons.inj hgap
      exact Or.inr (Or.inl ⟨gap, hother, hbehind⟩)
  · cases gap with
    | nil => exact Or.inl ⟨by simpa using hfront, by simpa using hgap.symm⟩
    | cons c gap =>
      obtain ⟨rfl, hlater⟩ := List.cons.inj hgap
      exact Or.inr (Or.inr ⟨gap, hfront, hlater⟩)

section Runs

variable {α : Type} {p : α → Bool} {word list : List α}

/-- A run in front stays a run if what follows begins with a gap. -/
theorem runs_append (hword : word ≠ []) (hall : ∀ a ∈ word, p a)
    (hlist : ∀ a ∈ list.head?, p a = false) : runs p (word ++ list) = word :: runs p list := by
  obtain ⟨a, rest, rfl⟩ := List.exists_cons_of_ne_nil hword
  have hrest : ∀ b ∈ rest, p b := fun b hb => hall b (List.mem_cons_of_mem a hb)
  have hnone : list.takeWhile p = [] ∧ list.dropWhile p = list := by
    cases list with
    | nil => exact ⟨rfl, rfl⟩
    | cons b list =>
      have hb : p b = false := hlist b rfl
      simp [hb]
  rw [List.cons_append, runs_cons_of_pos (hall a List.mem_cons_self),
    List.takeWhile_append_of_pos hrest, List.dropWhile_append_of_pos hrest, hnone.1, hnone.2,
    List.append_nil]

/-- A run is not empty, and all its elements have the property. -/
theorem of_mem_runs (h : word ∈ runs p list) : word ≠ [] ∧ ∀ a ∈ word, p a := by
  induction list using runs.induct p with
  | case1 => simp at h
  | case2 a rest ha ih =>
    rw [runs_cons_of_pos ha] at h
    rcases List.mem_cons.mp h with rfl | hlater
    · refine ⟨List.cons_ne_nil _ _, fun b hb => ?_⟩
      rcases List.mem_cons.mp hb with rfl | hb
      · exact ha
      · exact List.mem_takeWhile_imp hb
    · exact ih hlater
  | case3 a rest ha ih =>
    rw [runs_cons_of_neg (by simpa using ha)] at h
    exact ih h

/-- A span that ends before a gap does not see what is behind the gap. -/
theorem span_append_cons {gap : α} (hgap : p gap = false) (list rest : List α) :
    (list ++ gap :: rest).takeWhile p = list.takeWhile p ∧
      (list ++ gap :: rest).dropWhile p = list.dropWhile p ++ gap :: rest := by
  induction list with
  | nil => simp [hgap]
  | cons a list ih =>
    cases ha : p a with
    | true => simp [ha, ih]
    | false => simp [ha]

/-- No run goes on over an element without the property. -/
theorem runs_append_cons {gap : α} (hgap : p gap = false) (list rest : List α) :
    runs p (list ++ gap :: rest) = runs p list ++ runs p rest := by
  induction list using runs.induct p with
  | case1 => rw [List.nil_append, runs_cons_of_neg hgap, runs_nil, List.nil_append]
  | case2 a list ha ih =>
    obtain ⟨htake, hdrop⟩ := span_append_cons hgap list rest
    rw [List.cons_append, runs_cons_of_pos ha, runs_cons_of_pos ha, htake, hdrop, ih,
      List.cons_append]
  | case3 a list ha ih =>
    have ha : p a = false := by simpa using ha
    rw [List.cons_append, runs_cons_of_neg ha, runs_cons_of_neg ha, ih]

/-- In lists that are kept apart by one other element the runs are those of the lists. -/
theorem runs_intercalate {gap : α} (hgap : p gap = false) (lists : List (List α)) :
    runs p ([gap].intercalate lists) = lists.flatMap (runs p) := by
  induction lists with
  | nil => simp
  | cons list rest ih =>
    cases rest with
    | nil => simp
    | cons other more =>
      rw [List.intercalate_cons_cons, List.append_assoc, List.singleton_append,
        runs_append_cons hgap, ih]
      rfl

theorem runs_of_all (hword : word ≠ []) (hall : ∀ a ∈ word, p a) : runs p word = [word] := by
  have halone : runs p (word ++ []) = word :: runs p [] := runs_append hword hall (by simp)
  simpa using halone

end Runs

/-- The characters with one space in the place of every maximal run of blanks. -/
def squeeze : List Char → List Char
  | [] => []
  | c :: cs => if isBlank c then ' ' :: squeeze (skipBlanks cs) else c :: squeeze cs
termination_by cs => cs.length
decreasing_by
  · exact Nat.lt_succ_of_le (List.dropWhile_sublist isBlank).length_le
  · exact Nat.lt_succ_self _

def trim (cs : List Char) : List Char := dropTrailingBlanks (skipBlanks cs)

variable {c : Char} {cs ds : List Char}

@[simp] theorem squeeze_nil : squeeze [] = [] := by
  rw [squeeze]

theorem squeeze_cons_of_blank (h : isBlank c) (cs : List Char) :
    squeeze (c :: cs) = ' ' :: squeeze (skipBlanks cs) := by
  rw [squeeze, if_pos h]

theorem squeeze_cons_of_not_blank (h : isBlank c = false) (cs : List Char) :
    squeeze (c :: cs) = c :: squeeze cs := by
  rw [squeeze, if_neg (by simp [h])]

/-- Characters in front of a text that are no blanks stay as they are. -/
theorem squeeze_append (h : ∀ c ∈ cs, isBlank c = false) :
    squeeze (cs ++ ds) = cs ++ squeeze ds := by
  induction cs with
  | nil => rfl
  | cons c cs ih =>
    rw [List.cons_append, squeeze_cons_of_not_blank (h c List.mem_cons_self),
      ih fun d hd => h d (List.mem_cons_of_mem c hd)]
    rfl

theorem skipBlanks_cons_of_blank (h : isBlank c) (cs : List Char) :
    skipBlanks (c :: cs) = skipBlanks cs :=
  List.dropWhile_cons_of_pos h

theorem skipBlanks_cons_of_not_blank (h : isBlank c = false) (cs : List Char) :
    skipBlanks (c :: cs) = c :: cs :=
  List.dropWhile_cons_of_neg (by simp [h])

/-- Nothing is skipped in front of what was skipped to. -/
theorem skipBlanks_squeeze_skipBlanks (cs : List Char) :
    skipBlanks (squeeze (skipBlanks cs)) = squeeze (skipBlanks cs) := by
  cases hrest : skipBlanks cs with
  | nil => rw [squeeze_nil]; rfl
  | cons d rest =>
    have hd : isBlank d = false := by
      have hhead := List.head?_dropWhile_not isBlank cs
      rw [show cs.dropWhile isBlank = d :: rest from hrest] at hhead
      simpa using hhead
    rw [squeeze_cons_of_not_blank hd, skipBlanks_cons_of_not_blank hd]

theorem skipBlanks_squeeze (cs : List Char) :
    skipBlanks (squeeze cs) = squeeze (skipBlanks cs) := by
  cases cs with
  | nil => rw [show skipBlanks [] = [] from rfl, squeeze_nil]; rfl
  | cons c cs =>
    cases hc : isBlank c with
    | true =>
      rw [squeeze_cons_of_blank hc, skipBlanks_cons_of_blank (by decide),
        skipBlanks_cons_of_blank hc, skipBlanks_squeeze_skipBlanks]
    | false =>
      rw [squeeze_cons_of_not_blank hc, skipBlanks_cons_of_not_blank hc,
        skipBlanks_cons_of_not_blank hc, squeeze_cons_of_not_blank hc]

/-- Blanks at the end of two texts are those of the second one, unless that is all blanks. -/
theorem dropTrailingBlanks_append (cs ds : List Char) : dropTrailingBlanks (cs ++ ds) =
    if dropTrailingBlanks ds = [] then dropTrailingBlanks cs else cs ++ dropTrailingBlanks ds := by
  simp only [dropTrailingBlanks, List.reverse_append, List.dropWhile_append, List.isEmpty_iff,
    List.reverse_eq_nil_iff]
  split
  · rfl
  · rw [List.reverse_append, List.reverse_reverse]

theorem dropTrailingBlanks_of_not_blank (h : ∀ c ∈ cs, isBlank c = false) :
    dropTrailingBlanks cs = cs := by
  have hnone : cs.reverse.dropWhile isBlank = cs.reverse := by
    cases hrev : cs.reverse with
    | nil => rfl
    | cons c rest =>
      have hc : c ∈ cs := List.mem_reverse.mp (hrev ▸ List.mem_cons_self)
      exact List.dropWhile_cons_of_neg (by simp [h c hc])
  rw [dropTrailingBlanks, hnone, List.reverse_reverse]

theorem collapseBlanks_eq_nil_iff :
    collapseBlanks cs = [] ↔ runs (fun c => !isBlank c) cs = [] := by
  unfold collapseBlanks
  cases hruns : runs (fun c => !isBlank c) cs with
  | nil => simp
  | cons word rest =>
    have hword : word ≠ [] := (of_mem_runs (hruns ▸ List.mem_cons_self)).1
    cases rest with
    | nil => simpa using hword
    | cons other more => simp [List.intercalate_cons_cons]

/-- The words of a text with one space between two of them are the text with every maximal run of
blanks replaced by one space, and trimmed at both ends. By induction along the words: what follows a
word is empty or starts with a blank. -/
theorem collapseBlanks_eq (cs : List Char) : collapseBlanks cs = trim (squeeze cs) := by
  induction cs using runs.induct (fun c => !isBlank c) with
  | case1 => rw [collapseBlanks, runs_nil, squeeze_nil]; rfl
  | case2 a rest ha ih =>
    have hblank : isBlank a = false := by simpa using ha
    let word := a :: rest.takeWhile fun c => !isBlank c
    let after := rest.dropWhile fun c => !isBlank c
    have hcut : a :: rest = word ++ after := by
      simp [word, after]
    have hword : ∀ c ∈ word, isBlank c = false := by
      intro c hc
      rcases List.mem_cons.mp hc with rfl | hc
      · exact hblank
      · simpa using List.mem_takeWhile_imp hc
    have htrim : trim (squeeze (a :: rest)) = dropTrailingBlanks (word ++ squeeze after) := by
      rw [trim, skipBlanks_squeeze, skipBlanks_cons_of_not_blank hblank, hcut, squeeze_append hword]
    have hruns : runs (fun c => !isBlank c) (a :: rest) =
        word :: runs (fun c => !isBlank c) after := by
      rw [runs_cons_of_pos (by simpa using hblank)]
    rw [htrim, collapseBlanks, hruns]
    cases hafter : after with
    | nil => simp [dropTrailingBlanks_of_not_blank hword]
    | cons b more =>
      have hb : isBlank b := by
        have hhead := List.head?_dropWhile_not (fun c => !isBlank c) rest
        rw [show rest.dropWhile (fun c => !isBlank c) = b :: more from hafter] at hhead
        simpa using hhead
      have hlater : collapseBlanks (b :: more) =
          dropTrailingBlanks (squeeze (skipBlanks more)) := by
        rw [← hafter]
        refine ih.trans ?_
        rw [show rest.dropWhile (fun c => !isBlank c) = b :: more from hafter, trim,
          squeeze_cons_of_blank hb, skipBlanks_cons_of_blank (by decide),
          skipBlanks_squeeze_skipBlanks]
      rw [squeeze_cons_of_blank hb, List.append_cons, dropTrailingBlanks_append, ← hlater]
      split
      · rename_i hnone
        rw [collapseBlanks_eq_nil_iff.mp hnone, List.intercalate_singleton,
          dropTrailingBlanks_append, if_pos (by decide), dropTrailingBlanks_of_not_blank hword]
      · rename_i hsome
        rw [
          List.intercalate_cons_of_ne_nil fun hnone => hsome (collapseBlanks_eq_nil_iff.mpr hnone),
          ← collapseBlanks]
  | case3 a rest ha ih =>
    have hblank : isBlank a := by simpa using ha
    rw [collapseBlanks, runs_cons_of_neg (by simpa using ha), ← collapseBlanks, ih, trim, trim,
      squeeze_cons_of_blank hblank, skipBlanks_cons_of_blank (by decide),
      skipBlanks_squeeze_skipBlanks, skipBlanks_squeeze]

theorem length_squeeze_le (cs : List Char) : (squeeze cs).length ≤ cs.length := by
  induction cs using squeeze.induct with
  | case1 => rw [squeeze_nil]
  | case2 c cs hc ih =>
    have hskip : (skipBlanks cs).length ≤ cs.length := (List.dropWhile_sublist isBlank).length_le
    rw [squeeze_cons_of_blank hc, List.length_cons, List.length_cons]
    omega
  | case3 c cs hc ih =>
    rw [squeeze_cons_of_not_blank (by simpa using hc), List.length_cons, List.length_cons]
    omega

theorem length_trim_le (cs : List Char) : (trim cs).length ≤ cs.length := by
  have hskip : (skipBlanks cs).length ≤ cs.length := (List.dropWhile_sublist isBlank).length_le
  have hdrop := (List.dropWhile_sublist (l := (skipBlanks cs).reverse) isBlank).length_le
  rw [trim, dropTrailingBlanks, List.length_reverse]
  rw [List.length_reverse] at hdrop
  omega

theorem length_collapseBlanks_le (cs : List Char) : (collapseBlanks cs).length ≤ cs.length := by
  rw [collapseBlanks_eq]
  exact (length_trim_le _).trans (length_squeeze_le cs)

/-- The words of a text are still its words when there is one space between two of them. -/
theorem runs_collapseBlanks (cs : List Char) :
    runs (fun c => !isBlank c) (collapseBlanks cs) = runs (fun c => !isBlank c) cs := by
  rw [collapseBlanks, runs_intercalate (by decide)]
  calc (runs (fun c => !isBlank c) cs).flatMap (runs fun c => !isBlank c)
      = (runs (fun c => !isBlank c) cs).flatMap fun word => [word] :=
        List.flatMap_congr fun word hword => runs_of_all (of_mem_runs hword).1 (of_mem_runs hword).2
    _ = runs (fun c => !isBlank c) cs := List.flatMap_singleton' _

theorem collapseBlanks_collapseBlanks (cs : List Char) :
    collapseBlanks (collapseBlanks cs) = collapseBlanks cs := by
  rw [collapseBlanks, runs_collapseBlanks, ← collapseBlanks]

end Deliberation.Text
