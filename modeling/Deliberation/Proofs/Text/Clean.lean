import Deliberation.Proofs.Numeral
import Deliberation.Proofs.Text.Blank

/-!
Tags and character references. A text without tags keeps all its characters when tags are blanked,
and one without references keeps them when references are decoded. Plain text that has neither comes
out of a second cleaning as it was, and other plain text comes out shorter.
-/

namespace Deliberation.Text

variable {c : Char} {cs name rest : List Char}

def HasTag (cs : List Char) : Prop :=
  ∃ before inside after, cs = before ++ '<' :: (inside ++ '>' :: after)

/-- Somewhere in the characters there is a reference that stands for a character. -/
def HasReference (cs : List Char) : Prop :=
  ∃ before name after c, cs = before ++ '&' :: (name ++ ';' :: after) ∧ ';' ∉ name ∧
    referenced? name = some c

theorem HasTag.cons (h : HasTag cs) (c : Char) : HasTag (c :: cs) := by
  obtain ⟨before, inside, after, rfl⟩ := h
  exact ⟨c :: before, inside, after, rfl⟩

theorem HasReference.cons (h : HasReference cs) (c : Char) : HasReference (c :: cs) := by
  obtain ⟨before, name, after, d, rfl, hname, hd⟩ := h
  exact ⟨c :: before, name, after, d, rfl, hname, hd⟩

/-! ## Tags -/

theorem exists_of_afterTag? (h : afterTag? cs = some rest) :
    ∃ inside, cs = inside ++ '>' :: rest := by
  induction cs with
  | nil => simp [afterTag?] at h
  | cons c cs ih =>
    rw [afterTag?] at h
    split at h
    · rename_i hc
      exact ⟨[], by rw [hc, Option.some.inj h]; rfl⟩
    · obtain ⟨inside, rfl⟩ := ih h
      exact ⟨c :: inside, rfl⟩

/-- Some tag ends as soon as there is a mark for the end. -/
theorem exists_afterTag? (inside after : List Char) :
    ∃ rest, afterTag? (inside ++ '>' :: after) = some rest := by
  induction inside with
  | nil => exact ⟨after, by rw [List.nil_append, afterTag?, if_pos rfl]⟩
  | cons c inside ih =>
    rw [List.cons_append, afterTag?]
    split
    · exact ⟨_, rfl⟩
    · exact ih

theorem hasTag_cons_iff :
    HasTag (c :: cs) ↔ (c = '<' ∧ ∃ rest, afterTag? cs = some rest) ∨ HasTag cs := by
  constructor
  · rintro ⟨before, inside, after, h⟩
    cases before with
    | nil =>
      obtain ⟨rfl, rfl⟩ := List.cons.inj h
      exact Or.inl ⟨rfl, exists_afterTag? inside after⟩
    | cons d before => exact Or.inr ⟨before, inside, after, (List.cons.inj h).2⟩
  · rintro (⟨rfl, rest, hrest⟩ | h)
    · obtain ⟨inside, rfl⟩ := exists_of_afterTag? hrest
      exact ⟨[], inside, rest, rfl⟩
    · exact h.cons c

theorem blankTags_of_afterTag? (h : afterTag? cs = some rest) :
    blankTags ('<' :: cs) = ' ' :: blankTags rest := by
  rw [blankTags, if_pos rfl]
  split
  · rename_i hsame
    cases hsame.symm.trans h
    rfl
  · rename_i hnone
    cases hnone.symm.trans h

theorem blankTags_cons_of_not (h : ¬ (c = '<' ∧ ∃ rest, afterTag? cs = some rest)) :
    blankTags (c :: cs) = c :: blankTags cs := by
  rw [blankTags]
  split
  · rename_i hc
    split
    · rename_i rest hrest
      exact absurd ⟨hc, rest, hrest⟩ h
    · rfl
  · rfl

theorem blankTags_of_not_hasTag (h : ¬ HasTag cs) : blankTags cs = cs := by
  induction cs with
  | nil => rw [blankTags]
  | cons c cs ih =>
    rw [hasTag_cons_iff, not_or] at h
    rw [blankTags_cons_of_not h.1, ih h.2]

/-- To blank tags makes a text no longer, and shorter if there is one. -/
theorem length_blankTags (cs : List Char) : (blankTags cs).length ≤ cs.length ∧
    (HasTag cs → (blankTags cs).length < cs.length) := by
  induction hlength : cs.length using Nat.strong_induction_on generalizing cs with
  | _ n ih =>
    subst hlength
    cases cs with
    | nil => simp [blankTags, HasTag]
    | cons c cs =>
      by_cases hfirst : c = '<' ∧ ∃ rest, afterTag? cs = some rest
      · obtain ⟨rfl, rest, hrest⟩ := hfirst
        have hshort := length_lt_of_afterTag? hrest
        have hlater := (ih rest.length (Nat.lt_succ_of_lt hshort) rest rfl).1
        rw [blankTags_of_afterTag? hrest, List.length_cons, List.length_cons]
        exact ⟨by omega, fun _ => by omega⟩
      · obtain ⟨hle, hlt⟩ := ih cs.length (Nat.lt_succ_self _) cs rfl
        rw [blankTags_cons_of_not hfirst, List.length_cons, List.length_cons, hasTag_cons_iff]
        refine ⟨by omega, ?_⟩
        rintro (hhere | hlater)
        · exact absurd hhere hfirst
        · have := hlt hlater
          omega

/-! ## References -/

theorem reference?_append (hname : ';' ∉ name) (rest : List Char) :
    reference? (name ++ ';' :: rest) = (referenced? name).map fun c => (c, rest) := by
  have hall : ∀ c ∈ name, (c != ';') = true := by
    intro c hc
    rw [bne_iff_ne]
    rintro rfl
    exact hname hc
  rw [reference?, List.dropWhile_append_of_pos hall, List.takeWhile_append_of_pos hall,
    List.dropWhile_cons_of_neg (by simp), List.takeWhile_cons_of_neg (by simp), List.append_nil]

theorem exists_of_reference? (h : reference? cs = some (c, rest)) :
    ∃ name, cs = name ++ ';' :: rest ∧ ';' ∉ name ∧ referenced? name = some c := by
  unfold reference? at h
  split at h
  · simp at h
  · rename_i d tail hdrop
    obtain ⟨d', hname, hpair⟩ := Option.map_eq_some_iff.mp h
    obtain ⟨rfl, rfl⟩ := Prod.mk.inj hpair
    have hd : d = ';' := by
      have hhead := List.head?_dropWhile_not (· != ';') cs
      rw [hdrop] at hhead
      simpa using hhead
    refine ⟨_, ?_, fun hmem => ?_, hname⟩
    · rw [hd] at hdrop
      rw [← hdrop, List.takeWhile_append_dropWhile]
    · simpa using List.mem_takeWhile_imp hmem

/-- References are named by letters and digits of ASCII, and by the mark of a number. -/
theorem isAlphanum_of_referenced? (h : referenced? name = some c) {d : Char} (hd : d ∈ name) :
    d.isAlphanum ∨ d = '#' := by
  have hnumber : ∀ {base : Nat} {digits : List Char}, (Numeral.nat? base digits).bind ofCodePoint? =
    some c → d ∈ digits → d.isAlphanum := by
    intro base digits hread hd
    obtain ⟨n, hn, -⟩ := Option.bind_eq_some_iff.mp hread
    exact Numeral.isAlphanum_of_digit? (Numeral.isSome_digit?_of_nat? hn hd)
  unfold referenced? at h
  split at h
  · simp only [List.mem_cons] at hd
    rcases hd with rfl | rfl | hd
    · exact Or.inr rfl
    · exact Or.inl rfl
    · exact Or.inl (hnumber h hd)
  · simp only [List.mem_cons] at hd
    rcases hd with rfl | rfl | hd
    · exact Or.inr rfl
    · exact Or.inl rfl
    · exact Or.inl (hnumber h hd)
  · rcases List.mem_cons.mp hd with rfl | hd
    · exact Or.inr rfl
    · exact Or.inl (hnumber h hd)
  · have hnames : ∀ entry ∈ namedReferences, ∀ d ∈ entry.1.toList, d.isAlphanum := by
      simp [namedReferences]
    obtain ⟨before, after, hsplit, -⟩ := List.lookup_eq_some_iff.mp h
    have hentry : (String.ofList name, c) ∈ namedReferences := by simp [hsplit]
    exact Or.inl (hnames _ hentry d (by simpa using hd))

theorem decodeReferences_cons_of_ne (h : c ≠ '&') (cs : List Char) :
    decodeReferences (c :: cs) = c :: decodeReferences cs := by
  rw [decodeReferences, if_neg h]

theorem decodeReferences_of_reference? (h : reference? cs = some (c, rest)) :
    decodeReferences ('&' :: cs) = c :: decodeReferences rest := by
  rw [decodeReferences, if_pos rfl]
  split
  · rename_i hsame
    cases hsame.symm.trans h
    rfl
  · rename_i hnone
    cases hnone.symm.trans h

theorem hasReference_cons_iff : HasReference (c :: cs) ↔
    (c = '&' ∧ ∃ d rest, reference? cs = some (d, rest)) ∨ HasReference cs := by
  constructor
  · rintro ⟨before, name, after, d, h, hname, hd⟩
    cases before with
    | nil =>
      obtain ⟨rfl, rfl⟩ := List.cons.inj h
      exact Or.inl ⟨rfl, d, after, by rw [reference?_append hname, hd]; rfl⟩
    | cons b before => exact Or.inr ⟨before, name, after, d, (List.cons.inj h).2, hname, hd⟩
  · rintro (⟨rfl, d, rest, hrest⟩ | h)
    · obtain ⟨name, rfl, hname, hd⟩ := exists_of_reference? hrest
      exact ⟨[], name, rest, d, rfl, hname, hd⟩
    · exact h.cons c

theorem decodeReferences_cons_of_not (h : ¬ (c = '&' ∧ ∃ d rest, reference? cs = some (d, rest))) :
    decodeReferences (c :: cs) = c :: decodeReferences cs := by
  rw [decodeReferences]
  split
  · rename_i hc
    split
    · rename_i d rest hrest
      exact absurd ⟨hc, d, rest, hrest⟩ h
    · rfl
  · rfl

theorem decodeReferences_of_not_hasReference (h : ¬ HasReference cs) :
    decodeReferences cs = cs := by
  induction cs with
  | nil => rw [decodeReferences]
  | cons c cs ih =>
    rw [hasReference_cons_iff, not_or] at h
    rw [decodeReferences_cons_of_not h.1, ih h.2]

/-- To decode references makes a text no longer, and shorter if there is one. -/
theorem length_decodeReferences (cs : List Char) : (decodeReferences cs).length ≤ cs.length ∧
    (HasReference cs → (decodeReferences cs).length < cs.length) := by
  induction hlength : cs.length using Nat.strong_induction_on generalizing cs with
  | _ n ih =>
    subst hlength
    cases cs with
    | nil => simp [decodeReferences, HasReference]
    | cons c cs =>
      by_cases hfirst : c = '&' ∧ ∃ d rest, reference? cs = some (d, rest)
      · obtain ⟨rfl, d, rest, hrest⟩ := hfirst
        have hshort := length_lt_of_reference? hrest
        have hlater := (ih rest.length (Nat.lt_succ_of_lt hshort) rest rfl).1
        rw [decodeReferences_of_reference? hrest, List.length_cons, List.length_cons]
        exact ⟨by omega, fun _ => by omega⟩
      · obtain ⟨hle, hlt⟩ := ih cs.length (Nat.lt_succ_self _) cs rfl
        rw [decodeReferences_cons_of_not hfirst, List.length_cons, List.length_cons,
          hasReference_cons_iff]
        refine ⟨by omega, ?_⟩
        rintro (hhere | hlater)
        · exact absurd hhere hfirst
        · have := hlt hlater
          omega

/-! ## Cleaning twice -/

/-- Plain text comes out of another cleaning as it was exactly if no tag and no reference is left in
it: whatever is cleaned away makes it shorter. -/
theorem cleanChars_cleanChars_iff : cleanChars (cleanChars cs) = cleanChars cs ↔
    ¬ HasTag (cleanChars cs) ∧ ¬ HasReference (cleanChars cs) := by
  constructor
  · intro hsame
    have hlength := congrArg List.length hsame
    rw [cleanChars] at hlength
    have hcollapse := length_collapseBlanks_le (decodeReferences (blankTags (cleanChars cs)))
    obtain ⟨hdecode, hdecodeLt⟩ := length_decodeReferences (blankTags (cleanChars cs))
    obtain ⟨hblank, hblankLt⟩ := length_blankTags (cleanChars cs)
    have htag : ¬ HasTag (cleanChars cs) := fun htag => by
      have := hblankLt htag
      omega
    rw [blankTags_of_not_hasTag htag] at hdecodeLt hlength hcollapse
    refine ⟨htag, fun hreference => ?_⟩
    have := hdecodeLt hreference
    omega
  · rintro ⟨htag, hreference⟩
    rw [cleanChars, blankTags_of_not_hasTag htag, decodeReferences_of_not_hasReference hreference,
      cleanChars, collapseBlanks_collapseBlanks]

theorem clean_clean_iff {text : String} : clean (clean text) = clean text ↔
    ¬ HasTag (clean text).toList ∧ ¬ HasReference (clean text).toList := by
  simp only [clean, String.toList_ofList, String.ofList_inj]
  exact cleanChars_cleanChars_iff

end Deliberation.Text
