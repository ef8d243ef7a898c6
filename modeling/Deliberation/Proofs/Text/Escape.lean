import Deliberation.Proofs.Text.Clean

/-!
Escaped text. Any character may be written as a reference, and `&` and `<` have to be. Cleaning
reads each reference as its character, once: what it leaves of an escaped text is the text itself,
up to its blanks.
-/

namespace Deliberation.Text

/-- The characters that are commonly escaped by a name. -/
def escapeNames : List (String × Char) :=
  [("amp", '&'), ("lt", '<'), ("gt", '>'), ("quot", '"'), ("apos", '\'')]

inductive Denotes : List Char → Char → Prop where
  | named {name : String} {c : Char} (h : (name, c) ∈ escapeNames) : Denotes name.toList c
  | decimal {digits : List Char} {c : Char}
      (h : Numeral.Writes 10 c.toNat digits) : Denotes ('#' :: digits) c
  | hexadecimal {mark : Char} {digits : List Char} {c : Char} (hmark : mark = 'x' ∨ mark = 'X')
      (h : Numeral.Writes 16 c.toNat digits) : Denotes ('#' :: mark :: digits) c

inductive Escapes : List Char → List Char → Prop where
  | nil : Escapes [] []
  | literal {c : Char} {text written : List Char} (hliteral : c ≠ '&' ∧ c ≠ '<')
      (hrest : Escapes text written) : Escapes (c :: text) (c :: written)
  | reference {name : List Char} {c : Char} {text written : List Char} (hname : Denotes name c)
      (hrest : Escapes text written) : Escapes (c :: text) ('&' :: (name ++ ';' :: written))

theorem ofCodePoint?_toNat (c : Char) : ofCodePoint? c.toNat = some c := by
  have hvalid : c.toNat.isValidChar := c.valid
  rw [ofCodePoint?, if_pos hvalid, Char.ofNat_toNat]

namespace Denotes

variable {name : List Char} {c : Char}

/-- Every way to write a character between `&` and `;` is read as this character. -/
theorem referenced?_eq (h : Denotes name c) : referenced? name = some c := by
  cases h with
  | named h =>
    simp only [escapeNames, List.mem_cons, Prod.mk.injEq, List.not_mem_nil, or_false] at h
    rcases h with ⟨rfl, rfl⟩ | ⟨rfl, rfl⟩ | ⟨rfl, rfl⟩ | ⟨rfl, rfl⟩ | ⟨rfl, rfl⟩ <;> rfl
  | decimal h =>
    have hread := Numeral.nat?_of_writes (by decide) (by decide) h
    unfold referenced?
    split
    · rename_i hname
      cases hname
      cases hread
    · rename_i hname
      cases hname
      cases hread
    · rename_i hname
      cases hname
      rw [hread, Option.bind_some, ofCodePoint?_toNat]
    · rename_i hother
      exact absurd rfl (hother _)
  | hexadecimal hmark h =>
    have hread := Numeral.nat?_of_writes (by decide) (by decide) h
    rcases hmark with rfl | rfl
    · rw [referenced?, hread, Option.bind_some, ofCodePoint?_toNat]
    · rw [referenced?, hread, Option.bind_some, ofCodePoint?_toNat]

/-- No character of a name ends a reference or starts a tag. -/
theorem ne_of_mem (h : Denotes name c) {d : Char} (hd : d ∈ name) : d ≠ ';' ∧ d ≠ '<' := by
  have hallowed := isAlphanum_of_referenced? h.referenced?_eq hd
  constructor
  · rintro rfl
    exact absurd hallowed (by decide)
  · rintro rfl
    exact absurd hallowed (by decide)

end Denotes

namespace Escapes

variable {text written : List Char}

/-- No `<` is written, so there is no tag. -/
theorem blankTags_eq (h : Escapes text written) : blankTags written = written := by
  suffices hnone : '<' ∉ written by
    refine blankTags_of_not_hasTag ?_
    rintro ⟨before, inside, after, rfl⟩
    exact hnone (List.mem_append_right before List.mem_cons_self)
  induction h with
  | nil => exact List.not_mem_nil
  | literal hliteral hrest ih => simp [ih, hliteral.2.symm]
  | reference hname hrest ih =>
    have hclear : '<' ∉ _ := fun hmem => (hname.ne_of_mem hmem).2 rfl
    simp [ih, hclear]

/-- Each reference is read as its character, and nothing is read twice. -/
theorem decodeReferences_eq (h : Escapes text written) : decodeReferences written = text := by
  induction h with
  | nil => rw [decodeReferences]
  | literal hliteral hrest ih => rw [decodeReferences_cons_of_ne hliteral.1, ih]
  | reference hname hrest ih =>
    have hend : ';' ∉ _ := fun hmem => (hname.ne_of_mem hmem).1 rfl
    rw [decodeReferences_of_reference?
      (by rw [reference?_append hend, hname.referenced?_eq, Option.map_some]), ih]

end Escapes

/-- Cleaning undoes escaping: whatever characters of a text are written as references, in whatever
form, as long as `&` and `<` are, the cleaned text is the text with one space for every maximal run
of blanks, trimmed at both ends. No tag is seen in what is written, and decoding gives the text
itself. -/
theorem clean_of_escapes {text written : String} (h : Escapes text.toList written.toList) :
    blankTags written.toList = written.toList ∧ decodeReferences written.toList = text.toList ∧
      clean written = String.ofList (trim (squeeze text.toList)) := by
  refine ⟨h.blankTags_eq, h.decodeReferences_eq, ?_⟩
  rw [clean, cleanChars, h.blankTags_eq, h.decodeReferences_eq, collapseBlanks_eq]

/-- A text that looks like a reference itself stays as it is, and its two blanks become one. -/
theorem clean_escaped_reference : Escapes "&lt;  é\t".toList "&amp;lt;&#0032; &#XE9;\t".toList ∧
    clean "&amp;lt;&#0032; &#XE9;\t" = "&lt; é" := by
  have hamp : Denotes ['a', 'm', 'p'] '&' := .named (by decide : ("amp", '&') ∈ _)
  have hspace : Denotes ['#', '0', '0', '3', '2'] ' ' := .decimal ⟨2, by decide⟩
  have haccent : Denotes ['#', 'X', 'E', '9'] 'é' := .hexadecimal (.inr rfl) ⟨0, by decide⟩
  have hend : Escapes [' ', 'é', '\t'] (' ' :: '&' :: (['#', 'X', 'E', '9'] ++ [';', '\t'])) :=
    .literal (by decide) <| .reference haccent <| .literal (by decide) .nil
  have hwritten : Escapes "&lt;  é\t".toList "&amp;lt;&#0032; &#XE9;\t".toList := by
    rw [show "&lt;  é\t".toList = ['&', 'l', 't', ';', ' ', ' ', 'é', '\t'] from by decide,
      show "&amp;lt;&#0032; &#XE9;\t".toList =
        '&' :: (['a', 'm', 'p'] ++ ';' :: 'l' :: 't' :: ';' :: '&' :: (['#', '0', '0', '3', '2'] ++
          ';' :: ' ' :: '&' :: (['#', 'X', 'E', '9'] ++ [';', '\t']))) from by decide]
    exact .reference hamp <| .literal (by decide) <| .literal (by decide) <| .literal (by decide) <|
      .reference hspace hend
  refine ⟨hwritten, ?_⟩
  rw [(clean_of_escapes hwritten).2.2]
  decide +kernel

end Deliberation.Text
