import Deliberation.Proofs.Text.Clean
import Deliberation.Text.Word

/-!
Tags as word breaks. A tag becomes a space before references are decoded, and no name of a reference
has a space in it; so neither a tag nor a reference nor a word goes on from one side of the tag to
the other. What stands in front of the tag may hold anything but a `<` that is still open, and what
stands behind it anything at all.
-/

namespace Deliberation.Text

variable {cs rest inside : List Char}

/-- Every `<` has a `>` somewhere behind it. -/
def TagsClosed : List Char → Prop
  | [] => True
  | c :: cs => (c = '<' → '>' ∈ cs) ∧ TagsClosed cs

instance decidableTagsClosed : DecidablePred TagsClosed
  | [] => .isTrue trivial
  | _ :: cs =>
    have := decidableTagsClosed cs
    inferInstanceAs (Decidable (_ ∧ TagsClosed cs))

theorem TagsClosed.of_append_cons {c : Char} (h : TagsClosed (cs ++ c :: rest)) :
    TagsClosed rest := by
  induction cs with
  | nil => exact h.2
  | cons d cs ih => exact ih h.2

/-! ## Tags -/

/-- What follows a tag goes on with whatever is put behind the text. -/
theorem afterTag?_append (h : afterTag? cs = some rest) (ds : List Char) :
    afterTag? (cs ++ ds) = some (rest ++ ds) := by
  induction cs with
  | nil => cases h
  | cons c cs ih =>
    rw [afterTag?] at h
    rw [List.cons_append, afterTag?]
    split at h
    · rename_i hc
      rw [if_pos hc, Option.some.inj h]
    · rename_i hc
      rw [if_neg hc, ih h]

theorem afterTag?_of_notMem (h : '>' ∉ inside) (rest : List Char) :
    afterTag? (inside ++ '>' :: rest) = some rest := by
  induction inside with
  | nil => rw [List.nil_append, afterTag?, if_pos rfl]
  | cons c inside ih =>
    have hc : c ≠ '>' := fun hsame => h (hsame ▸ List.mem_cons_self)
    rw [List.cons_append, afterTag?, if_neg hc, ih fun hmem => h (List.mem_cons_of_mem c hmem)]

/-- The tags of a text whose tags are closed end in it, whatever follows. -/
theorem blankTags_append (h : TagsClosed cs) (ds : List Char) :
    blankTags (cs ++ ds) = blankTags cs ++ blankTags ds := by
  induction cs using blankTags.induct with
  | case1 => rw [List.nil_append, blankTags, List.nil_append]
  | case2 cs rest hrest ih =>
    obtain ⟨inside, rfl⟩ := exists_of_afterTag? hrest
    rw [List.cons_append, blankTags_of_afterTag? hrest,
      blankTags_of_afterTag? (afterTag?_append hrest ds), ih (TagsClosed.of_append_cons h.2),
      List.cons_append]
  | case3 cs hnone ih =>
    obtain ⟨inside, after, rfl⟩ := List.append_of_mem (h.1 rfl)
    obtain ⟨rest, hrest⟩ := exists_afterTag? inside after
    cases hnone.symm.trans hrest
  | case4 c cs hc ih =>
    rw [List.cons_append, blankTags_cons_of_not fun htag => hc htag.1,
      blankTags_cons_of_not fun htag => hc htag.1, ih h.2, List.cons_append]

/-! ## References -/

/-- A reference ends before a space, or it is none. -/
theorem reference?_append_space (cs ds : List Char) : reference? (cs ++ ' ' :: ds) =
    (reference? cs).map fun found => (found.1, found.2 ++ ' ' :: ds) := by
  by_cases hend : ';' ∈ cs
  · obtain ⟨name, rest, rfl, hname⟩ := List.eq_append_cons_of_mem hend
    rw [List.append_assoc, List.cons_append, reference?_append hname, reference?_append hname,
      Option.map_map]
    rfl
  · have halone : reference? cs = none := by
      rw [Option.eq_none_iff_forall_ne_some]
      rintro ⟨c, rest⟩ hfound
      obtain ⟨name, rfl, -⟩ := exists_of_reference? hfound
      exact hend (by simp)
    rw [halone, Option.map_none, Option.eq_none_iff_forall_ne_some]
    rintro ⟨c, rest⟩ hfound
    obtain ⟨name, hsplit, -, hc⟩ := exists_of_reference? hfound
    rcases append_cons_cases hsplit with ⟨-, hsame, -⟩ | ⟨gap, rfl, -⟩ | ⟨gap, rfl, -⟩
    · exact absurd hsame (by decide)
    · have hspace : ' ' ∈ cs ++ ' ' :: gap := by simp
      exact absurd (isAlphanum_of_referenced? hc hspace) (by decide)
    · exact hend (by simp)

/-- No reference goes across a space. -/
theorem decodeReferences_append_space (cs ds : List Char) :
    decodeReferences (cs ++ ' ' :: ds) = decodeReferences cs ++ ' ' :: decodeReferences ds := by
  induction cs using decodeReferences.induct with
  | case1 =>
    rw [List.nil_append, decodeReferences_cons_of_ne (by decide), decodeReferences, List.nil_append]
  | case2 cs c rest hfound ih =>
    have hlonger : reference? (cs ++ ' ' :: ds) = some (c, rest ++ ' ' :: ds) := by
      rw [reference?_append_space, hfound, Option.map_some]
    rw [List.cons_append, decodeReferences_of_reference? hfound,
      decodeReferences_of_reference? hlonger, ih, List.cons_append]
  | case3 cs hnone ih =>
    have hlonger : reference? (cs ++ ' ' :: ds) = none := by
      rw [reference?_append_space, hnone, Option.map_none]
    rw [List.cons_append, decodeReferences_cons_of_not (by simp [hlonger]),
      decodeReferences_cons_of_not (by simp [hnone]), ih, List.cons_append]
  | case4 c cs hc ih =>
    rw [List.cons_append, decodeReferences_cons_of_ne hc, decodeReferences_cons_of_ne hc, ih,
      List.cons_append]

/-! ## Words -/

/-- The words of plain text are those of its parts between blanks. -/
theorem wordChars_collapseBlanks (least : Nat) (cs : List Char) :
    wordChars least (collapseBlanks cs) =
      (runs (fun c => !isBlank c) cs).flatMap (wordChars least) := by
  have hspace : isLetter ' ' = false := by decide +kernel
  simp only [wordChars, collapseBlanks, runs_intercalate hspace, List.map_flatMap,
    List.filter_flatMap]
  rfl

theorem cleanChars_tag (hclosed : TagsClosed cs) (hinside : '>' ∉ inside) (ds : List Char) :
    cleanChars (cs ++ '<' :: (inside ++ '>' :: ds)) = collapseBlanks
      (decodeReferences (blankTags cs) ++ ' ' :: decodeReferences (blankTags ds)) := by
  rw [cleanChars, blankTags_append hclosed, blankTags_of_afterTag? (afterTag?_of_notMem hinside ds),
    decodeReferences_append_space]

/-- A tag is a word break: the words of a text with a tag in it are those of what stands in front of
the tag, as long as no tag is open there, and then those of what stands behind it. -/
theorem words_clean_tag {before inside : String} (hclosed : TagsClosed before.toList)
    (hinside : '>' ∉ inside.toList) (after : String) (least : Nat) :
    words least (clean (before ++ "<" ++ inside ++ ">" ++ after)) =
      words least (clean before) ++ words least (clean after) := by
  have hsplit : (before ++ "<" ++ inside ++ ">" ++ after).toList =
      before.toList ++ '<' :: (inside.toList ++ '>' :: after.toList) := by simp
  simp only [words, clean, String.toList_ofList, hsplit]
  rw [cleanChars_tag hclosed hinside, wordChars_collapseBlanks, runs_append_cons (by decide),
    List.flatMap_append, List.map_append, ← wordChars_collapseBlanks, ← wordChars_collapseBlanks]
  rfl

/-- The halves of a reference on either side of a tag are not put together, a `<` within the tag and
an open one behind it do no harm, and a sigma in front of the tag is the last letter of its word. -/
theorem words_clean_torn_reference :
    TagsClosed "3 > 2: <i>Wind</i> ΤΕΛΟΣ&a".toList ∧ '>' ∉ "br <".toList ∧
      words 2 (clean ("3 > 2: <i>Wind</i> ΤΕΛΟΣ&a" ++ "<" ++ "br <" ++ ">" ++ "mp;Solar <b")) =
        ["wind", "τελος", "mp", "solar"] := by
  have hclosed : TagsClosed "3 > 2: <i>Wind</i> ΤΕΛΟΣ&a".toList := by decide
  have hinside : '>' ∉ "br <".toList := by decide
  refine ⟨hclosed, hinside, ?_⟩
  rw [words_clean_tag hclosed hinside]
  decide +kernel

end Deliberation.Text
