import Deliberation.Proofs.Text.Blank
import Deliberation.Text.Clean

/-!
Where previews end. In a cleaned text every blank is one space behind a word. So the last space
among the first characters of a text that is too long is where a word ends, and what stands in front
of it is kept as it is; without such a space nothing but the end of the first word can be lost.
-/

namespace Deliberation.Text

variable {cs before word after plain kept : List Char}

/-! ## The last space -/

theorem ne_space_of_mem_reverse (h : ' ' ∉ cs) : ∀ c ∈ cs.reverse, (c != ' ') = true := by
  intro c hc
  rw [bne_iff_ne]
  rintro rfl
  exact h (List.mem_reverse.mp hc)

theorem beforeLastSpace?_of_notMem (h : ' ' ∉ cs) : beforeLastSpace? cs = none := by
  have hnone : cs.reverse.dropWhile (· != ' ') = [] :=
    List.dropWhile_eq_nil_iff.mpr (ne_space_of_mem_reverse h)
  rw [beforeLastSpace?, hnone]

theorem beforeLastSpace?_append (before : List Char) (h : ' ' ∉ after) :
    beforeLastSpace? (before ++ ' ' :: after) = some before := by
  rw [beforeLastSpace?, List.reverse_append, List.reverse_cons, List.append_assoc,
    List.dropWhile_append_of_pos (ne_space_of_mem_reverse h), List.singleton_append,
    List.dropWhile_cons_of_neg (by decide)]
  exact congrArg some (List.reverse_reverse before)

theorem exists_last_space (h : ' ' ∈ cs) :
    ∃ before after, cs = before ++ ' ' :: after ∧ ' ' ∉ after := by
  obtain ⟨behind, front, hsplit, hlast⟩ := List.eq_append_cons_of_mem (List.mem_reverse.mpr h)
  refine ⟨front.reverse, behind.reverse, ?_, fun hmem => hlast (List.mem_reverse.mp hmem)⟩
  rw [← List.reverse_reverse cs, hsplit]
  simp

/-! ## Spaces of cleaned text -/

/-- The last character belongs to a word. -/
def EndsInWord (cs : List Char) : Prop := ∃ c, cs.getLast? = some c ∧ isBlank c = false

theorem EndsInWord.append_left (h : EndsInWord cs) (front : List Char) :
    EndsInWord (front ++ cs) := by
  obtain ⟨c, hc, hword⟩ := h
  exact ⟨c, by rw [List.getLast?_append, hc, Option.some_or], hword⟩

theorem endsInWord_of_not_blank (hsome : cs ≠ []) (h : ∀ c ∈ cs, isBlank c = false) :
    EndsInWord cs :=
  ⟨cs.getLast hsome, List.getLast?_eq_some_getLast hsome, h _ (List.getLast_mem hsome)⟩

theorem EndsInWord.dropTrailingBlanks_eq (h : EndsInWord cs) : dropTrailingBlanks cs = cs := by
  obtain ⟨c, hc, hword⟩ := h
  obtain ⟨front, rfl⟩ := List.getLast?_eq_some_iff.mp hc
  have hone : dropTrailingBlanks [c] = [c] := dropTrailingBlanks_of_not_blank (by simpa using hword)
  rw [dropTrailingBlanks_append, hone, if_neg (List.cons_ne_nil c [])]

theorem EndsInWord.ne_nil (h : EndsInWord cs) : cs ≠ [] := by
  rintro rfl
  obtain ⟨c, hc, -⟩ := h
  cases hc

structure IsSpaced (cs : List Char) : Prop where
  eq_space : ∀ c ∈ cs, isBlank c → c = ' '
  behind_word : ∀ before after, cs = before ++ ' ' :: after → EndsInWord before

theorem isSpaced_of_not_blank (h : ∀ c ∈ cs, isBlank c = false) : IsSpaced cs where
  eq_space c hc hblank := absurd hblank (by simp [h c hc])
  behind_word before after hsplit := absurd (h ' ' (by simp [hsplit])) (by decide)

/-- A word, a space and spaced text are spaced text. -/
theorem IsSpaced.cons_word (hsome : word ≠ []) (hword : ∀ c ∈ word, isBlank c = false)
    (hrest : IsSpaced cs) : IsSpaced (word ++ ' ' :: cs) where
  eq_space c hc hblank := by
    rcases List.mem_append.mp hc with hinside | hlater
    · exact absurd hblank (by simp [hword c hinside])
    · rcases List.mem_cons.mp hlater with rfl | hlater
      · rfl
      · exact hrest.eq_space c hlater hblank
  behind_word before after hsplit := by
    rcases append_cons_cases hsplit with ⟨rfl, -, -⟩ | ⟨gap, rfl, hlater⟩ | ⟨gap, hfront, -⟩
    · exact endsInWord_of_not_blank hsome hword
    · rw [List.append_cons]
      exact (hrest.behind_word gap after hlater).append_left _
    · exact absurd (hword ' ' (by simp [hfront])) (by decide)

theorem isSpaced_collapseBlanks (cs : List Char) : IsSpaced (collapseBlanks cs) := by
  have hwords : ∀ word ∈ runs (fun c => !isBlank c) cs, word ≠ [] ∧
      ∀ c ∈ word, isBlank c = false := by
    intro word hword
    obtain ⟨hsome, hall⟩ := of_mem_runs hword
    exact ⟨hsome, by simpa using hall⟩
  rw [collapseBlanks]
  generalize runs (fun c => !isBlank c) cs = words at hwords
  induction words with
  | nil => exact isSpaced_of_not_blank (by simp)
  | cons word rest ih =>
    obtain ⟨hsome, hword⟩ := hwords word List.mem_cons_self
    have hrest := ih fun other hother => hwords other (List.mem_cons_of_mem word hother)
    cases rest with
    | nil => exact isSpaced_of_not_blank (by simpa using hword)
    | cons other more =>
      rw [List.intercalate_cons_cons, List.append_assoc, List.singleton_append]
      exact hrest.cons_word hsome hword

/-! ## Cutting -/

theorem cutAtWord_of_notMem (h : ' ' ∉ cs) : cutAtWord cs = cs := by
  rw [cutAtWord, beforeLastSpace?_of_notMem h]

theorem cutAtWord_append (hword : EndsInWord before) (h : ' ' ∉ after) :
    cutAtWord (before ++ ' ' :: after) = before := by
  simp only [cutAtWord, beforeLastSpace?_append before h, hword.dropTrailingBlanks_eq,
    List.isEmpty_iff, if_neg hword.ne_nil]

theorem previewChars_of_long (h : previewLength < plain.length) :
    previewChars plain = cutAtWord (plain.take previewLength) ++ [' '] :=
  if_neg (Nat.not_le.mpr h)

theorem eq_append_of_take {most : Nat} {rest : List Char}
    (h : plain.take most = kept ++ ' ' :: rest) :
    plain = kept ++ ' ' :: (rest ++ plain.drop most) := by
  rw [← List.cons_append, ← List.append_assoc, ← h, List.take_append_drop]

/-- A text that is too long is cut at the last space that fits, if there is one. -/
theorem previewChars_of_space (hspaced : IsSpaced plain) (hlong : previewLength < plain.length)
    (hspace : ' ' ∈ plain.take previewLength) :
    ∃ kept rest, plain.take previewLength = kept ++ ' ' :: rest ∧ ' ' ∉ rest ∧ EndsInWord kept ∧
      previewChars plain = kept ++ [' '] := by
  obtain ⟨kept, rest, hhead, hlast⟩ := exists_last_space hspace
  have hword : EndsInWord kept := hspaced.behind_word kept _ (eq_append_of_take hhead)
  exact ⟨kept, rest, hhead, hlast, hword,
    by rw [previewChars_of_long hlong, hhead, cutAtWord_append hword hlast]⟩

theorem previewChars_of_no_space (hlong : previewLength < plain.length)
    (hspace : ' ' ∉ plain.take previewLength) :
    previewChars plain = plain.take previewLength ++ [' '] := by
  rw [previewChars_of_long hlong, cutAtWord_of_notMem hspace]

/-- A space in the last place that fits is kept. -/
example :
    previewChars (List.replicate 119 'é' ++ [' ', 'w']) = List.replicate 119 'é' ++ [' '] := by
  decide +kernel

/-- A word that fills all places is followed by one more space. -/
example :
    previewChars (List.replicate 120 'é' ++ [' ', 'w']) = List.replicate 120 'é' ++ [' '] := by
  decide +kernel

structure IsBreak (plain : List Char) (most : Nat) (start : List Char) : Prop where
  begins : start <+: plain
  ends : start.getLast? = some ' '
  fits : start.length ≤ most

/-- The last space that fits ends the longest break. -/
theorem longest_break {most : Nat} {rest : List Char}
    (hhead : plain.take most = kept ++ ' ' :: rest) (hlast : ' ' ∉ rest) :
    IsBreak plain most (kept ++ [' ']) ∧
      ∀ start, IsBreak plain most start → start <+: kept ++ [' '] := by
  have hcut : plain.take most = (kept ++ [' ']) ++ rest := by rw [hhead, List.append_cons]
  have hbegins : kept ++ [' '] <+: plain.take most := ⟨rest, hcut.symm⟩
  refine ⟨⟨hbegins.trans (List.take_prefix most plain), List.getLast?_concat,
    hbegins.length_le.trans (List.length_take_le most plain)⟩, fun start hstart => ?_⟩
  obtain ⟨tail, htail⟩ : start <+: (kept ++ [' ']) ++ rest :=
    hcut ▸ List.prefix_take_iff.mpr ⟨hstart.begins, hstart.fits⟩
  rcases List.append_eq_append_iff.mp htail with ⟨more, hmore, -⟩ | ⟨more, hmore, hrest⟩
  · exact ⟨more, hmore.symm⟩
  · cases hend : more.getLast? with
    | none =>
      have hsame : start = kept ++ [' '] := by
        rw [hmore, List.getLast?_eq_none_iff.mp hend, List.append_nil]
      exact ⟨[], by rw [hsame, List.append_nil]⟩
    | some c =>
      have hc : some c = some ' ' := by
        rw [← hstart.ends, hmore, List.getLast?_append, hend, Option.some_or]
      obtain rfl := Option.some.inj hc
      exact absurd (hrest ▸ List.mem_append_left tail (List.mem_of_getLast? hend)) hlast

/-! ## Words that are kept whole -/

structure IsWordBetween (before word after : List Char) : Prop where
  not_nil : word ≠ []
  not_blank : ∀ c ∈ word, isBlank c = false
  opens : ∀ c ∈ before.getLast?, isBlank c
  closes : ∀ c ∈ after.head?, isBlank c

/-- What is kept of a text is a beginning of it that ends in a word, and every word of at most
`most` characters is kept or left out as a whole. -/
structure KeepsWords (plain : List Char) (most : Nat) (kept : List Char) : Prop where
  begins : kept <+: plain
  ends : EndsInWord kept
  whole : ∀ before word after, plain = before ++ word ++ after → IsWordBetween before word after →
    word.length ≤ most → kept <+: before ∨ before ++ word <+: kept

/-- A beginning of a text ends in front of a given part of it, or behind it, or within it. -/
theorem ends_around (h : kept <+: before ++ word ++ after) :
    kept <+: before ∨ before ++ word <+: kept ∨
      ∃ part more, kept = before ++ part ∧ word = part ++ more ∧ more ≠ [] := by
  obtain ⟨rest, hrest⟩ := h
  rw [List.append_assoc] at hrest
  rcases List.append_eq_append_iff.mp hrest with ⟨gap, hgap, -⟩ | ⟨part, hpart, hlater⟩
  · exact Or.inl ⟨gap, hgap.symm⟩
  · rcases List.append_eq_append_iff.mp hlater with ⟨gap, hgap, -⟩ | ⟨more, hmore, -⟩
    · exact Or.inr (Or.inl ⟨gap, by rw [hpart, hgap, List.append_assoc]⟩)
    · by_cases hnone : more = []
      · exact Or.inr (Or.inl ⟨[], by rw [hpart, hmore, hnone, List.append_nil, List.append_nil]⟩)
      · exact Or.inr (Or.inr ⟨part, more, hpart, hmore, hnone⟩)

theorem keepsWords_of_space {most : Nat} {rest : List Char} (hends : EndsInWord kept)
    (hcut : plain = kept ++ ' ' :: rest) : KeepsWords plain most kept where
  begins := ⟨_, hcut.symm⟩
  ends := hends
  whole before word after hsplit hword _ := by
    have hbegins : kept <+: before ++ word ++ after := hsplit ▸ ⟨_, hcut.symm⟩
    rcases ends_around hbegins with hfront | hbehind | ⟨part, more, rfl, rfl, hmore⟩
    · exact Or.inl hfront
    · exact Or.inr hbehind
    · have hsame : before ++ part ++ ' ' :: rest = before ++ part ++ (more ++ after) := by
        rw [← hcut, hsplit]
        simp only [List.append_assoc]
      obtain ⟨c, more, rfl⟩ := List.exists_cons_of_ne_nil hmore
      obtain ⟨rfl, -⟩ := List.cons.inj (List.append_cancel_left hsame)
      exact absurd (hword.not_blank ' ' (by simp)) (by decide)

/-- Where the first characters have no space among them they are a part of one long word. -/
theorem keepsWords_of_no_space {most : Nat} (hspaced : IsSpaced plain) (hpositive : 0 < most)
    (hlong : most < plain.length) (hspace : ' ' ∉ plain.take most) :
    KeepsWords plain most (plain.take most) where
  begins := List.take_prefix most plain
  ends := by
    refine endsInWord_of_not_blank ?_ fun c hc => ?_
    · exact List.length_pos_iff.mp (by rw [List.length_take]; omega)
    · by_contra hblank
      have hsame := hspaced.eq_space c (List.mem_of_mem_take hc) (by simpa using hblank)
      exact hspace (hsame ▸ hc)
  whole before word after hsplit hword hfits := by
    have hbegins : plain.take most <+: before ++ word ++ after := by
      rw [← hsplit]
      exact List.take_prefix most plain
    rcases ends_around hbegins with hfront | hbehind | ⟨part, more, hkept, rfl, hmore⟩
    · exact Or.inl hfront
    · exact Or.inr hbehind
    · have hnone : before = [] := by
        rw [← List.getLast?_eq_none_iff, Option.eq_none_iff_forall_ne_some]
        intro c hc
        have hmem : c ∈ before := List.mem_of_getLast? hc
        have hsame := hspaced.eq_space c (by simp [hsplit, hmem]) (hword.opens c hc)
        exact hspace (hkept.symm ▸ List.mem_append_left part (hsame ▸ hmem))
      have hlength := congrArg List.length hkept
      have hrest := List.length_pos_iff.mpr hmore
      rw [hnone, List.nil_append, List.length_take] at hlength
      rw [List.length_append] at hfits
      omega

/-- The preview of a text that is not too long once it is cleaned is the cleaned text. Otherwise it
is the longest beginning of at most 120 characters that ends with a space; and where the first 120
characters have no space in them, it is these with a space behind them. So it ends in a word and
exactly one space, and no word of up to 120 characters is split. -/
theorem preview_of_text (text : String) :
    let plain := (clean text).toList
    (plain.length ≤ 120 → preview text = clean text) ∧
    (120 < plain.length → ' ' ∈ plain.take 120 → IsBreak plain 120 (preview text).toList ∧
      ∀ start, IsBreak plain 120 start → start <+: (preview text).toList) ∧
    (120 < plain.length → ' ' ∉ plain.take 120 → (preview text).toList = plain.take 120 ++ [' ']) ∧
    (120 < plain.length → ∃ kept, (preview text).toList = kept ++ [' '] ∧
      KeepsWords plain 120 kept) := by
  intro plain
  have hplain : plain = cleanChars text.toList := String.toList_ofList
  have hpreview : (preview text).toList = previewChars plain := by
    rw [preview, String.toList_ofList, hplain]
  have hspaced : IsSpaced plain := hplain ▸ isSpaced_collapseBlanks _
  refine ⟨fun hshort => ?_, fun hlong hspace => ?_, fun hlong hspace => ?_, fun hlong => ?_⟩
  · rw [← String.toList_inj, hpreview]
    exact if_pos hshort
  · obtain ⟨kept, rest, hhead, hlast, -, hkept⟩ := previewChars_of_space hspaced hlong hspace
    rw [hpreview, hkept]
    exact longest_break hhead hlast
  · rw [hpreview]
    exact previewChars_of_no_space hlong hspace
  · by_cases hspace : ' ' ∈ plain.take 120
    · obtain ⟨kept, rest, hhead, -, hends, hkept⟩ := previewChars_of_space hspaced hlong hspace
      exact ⟨kept, hpreview.trans hkept, keepsWords_of_space hends (eq_append_of_take hhead)⟩
    · exact ⟨plain.take 120, hpreview.trans (previewChars_of_no_space hlong hspace),
        keepsWords_of_no_space hspaced (by decide) hlong hspace⟩

end Deliberation.Text
