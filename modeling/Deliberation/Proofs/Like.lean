import Deliberation.Like

/-!
Patterns of literal characters that end in `%`. Such a pattern accepts the texts that begin with its
literal characters, provided that neither side has letters, whose case would not count.
-/

namespace Deliberation.Like

/-- A character that stands for itself alone in a pattern, and is told apart from every other such
one. -/
def IsLiteral (c : Char) : Prop := c ≠ '%' ∧ c ≠ '_' ∧ c.toLower = c

theorem isLiteral_of_isDigit {c : Char} (h : c.isDigit) : IsLiteral c := by
  have hbounds : 48 ≤ c.val ∧ c.val ≤ 57 := by
    simpa [Char.isDigit] using h
  refine ⟨?_, ?_, ?_⟩
  · rintro rfl
    cases h
  · rintro rfl
    cases h
  · unfold Char.toLower
    split
    · rename_i hupper
      exact absurd (UInt32.le_trans hupper.1 hbounds.2) (by decide)
    · rfl

theorem accepts_any (text : List Char) : accepts ['%'] text := by
  induction text with
  | nil => simp [accepts]
  | cons c text ih => simp [accepts, ih]

/-- A pattern without wildcards but for a percent sign at its end accepts the texts that begin with
the rest of it. -/
theorem accepts_literal_iff {pattern text : List Char} (hpattern : ∀ c ∈ pattern, IsLiteral c)
    (htext : ∀ c ∈ text, IsLiteral c) : accepts (pattern ++ ['%']) text ↔ pattern <+: text := by
  induction pattern generalizing text with
  | nil => simp [accepts_any]
  | cons c pattern ih =>
    obtain ⟨hany, hone, hlower⟩ := hpattern c List.mem_cons_self
    cases text with
    | nil => simp [accepts, hany]
    | cons d text =>
      obtain ⟨-, -, hlowerText⟩ := htext d List.mem_cons_self
      have hrest := ih (fun e he => hpattern e (List.mem_cons_of_mem c he))
        (fun e he => htext e (List.mem_cons_of_mem d he))
      rw [List.cons_append, accepts, List.cons_prefix_cons, ← hrest]
      simp [hany, hone, hlower, hlowerText]

end Deliberation.Like
