import Deliberation.Data.Fields
import Deliberation.Data.Json

/-!
Lists of texts as documents. What a list of texts is written as is read as that list again, whatever
characters the texts have: character by character inside the quotes, then text by text, then the
whole list.
-/

namespace Deliberation.Json

/-- An escape of one letter is read as the character that it was written for. -/
theorem escaped?_of_escapeLetter? {c letter : Char} (h : escapeLetter? c = some letter) :
    letter ≠ 'u' ∧ escaped? letter = some c := by
  unfold escapeLetter? at h
  split at h
  all_goals first
    | cases h; exact ⟨by decide, rfl⟩
    | cases h

theorem ne_quote_of_escapeLetter? {c : Char} (h : escapeLetter? c = none) : c ≠ '"' ∧ c ≠ '\\' := by
  constructor
  · rintro rfl
    cases h
  · rintro rfl
    cases h

/-- The digits of a control character are those of its number. -/
theorem nat?_controlDigits : ∀ n < 32,
    Numeral.isHexadecimal (Nat.digitChar (n / 16)) ∧
      Numeral.isHexadecimal (Nat.digitChar (n % 16)) ∧
      Numeral.nat? 16 ['0', '0', Nat.digitChar (n / 16), Nat.digitChar (n % 16)] = some n := by
  decide

theorem foldlM_append_of_some {σ α : Type} {step : σ → α → Option σ} {xs ys : List α} {s t : σ}
    (h : xs.foldlM step s = some t) : (xs ++ ys).foldlM step s = ys.foldlM step t := by
  rw [List.foldlM_append, h]
  rfl

theorem foldlM_cons_of_some {σ α : Type} {step : σ → α → Option σ} {x : α} {xs : List α} {s t : σ}
    (h : step s x = some t) : (x :: xs).foldlM step s = xs.foldlM step t := by
  rw [List.foldlM_cons, h]
  rfl

variable {tokens : List Token} {read : List Piece}

/-- A character that is written inside quotes is read as that character. -/
theorem foldlM_cut_quotedChar (c : Char) : (quotedChar c).toList.foldlM cut ⟨tokens, .inText read⟩ =
    some ⟨tokens, .inText (.char c :: read)⟩ := by
  unfold quotedChar
  split
  · rename_i letter hletter
    obtain ⟨hplain, hread⟩ := escaped?_of_escapeLetter? hletter
    simp [cut, hplain, hread]
  · rename_i hnone
    obtain ⟨hquote, hescape⟩ := ne_quote_of_escapeLetter? hnone
    split
    · rename_i hcontrol
      obtain ⟨hhigh, hlow, hnumber⟩ := nat?_controlDigits c.toNat hcontrol
      have hzero : Numeral.isHexadecimal '0' := by decide
      have hunit : Piece.ofUnit c.toNat = .char c := by
        have hsmall : ¬ (0xD800 ≤ c.toNat ∧ c.toNat < 0xE000) := by omega
        rw [Piece.ofUnit, if_neg hsmall, Char.ofNat_toNat]
      simp [controlDigits, cut, hzero, hhigh, hlow, hnumber, hunit]
    · rename_i hplain
      simp [cut, hquote, hescape, hplain]

/-- Cutting the characters of a quoted text gathers what they stand for. -/
theorem foldlM_cut_quotedChars (cs : List Char) :
    (cs.flatMap fun c => (quotedChar c).toList).foldlM cut ⟨tokens, .inText read⟩ =
      some ⟨tokens, .inText ((cs.map Piece.char).reverse ++ read)⟩ := by
  induction cs generalizing read with
  | nil => rfl
  | cons c cs ih =>
    rw [List.flatMap_cons, foldlM_append_of_some (foldlM_cut_quotedChar c), ih, List.map_cons,
      List.reverse_cons, List.append_assoc]
    rfl

theorem joinPieces_chars (cs : List Char) : joinPieces (cs.map .char) = some cs := by
  induction cs with
  | nil => rfl
  | cons c cs ih => rw [List.map_cons, joinPieces, ih, Option.map_some]

theorem foldlM_cut_quoted (text : String) : (quoted text).toList.foldlM cut ⟨tokens, .between⟩ =
    some ⟨.text (some text) :: tokens, .between⟩ := by
  have hchars : (quoted text).toList =
      '"' :: ((text.toList.flatMap fun c => (quotedChar c).toList) ++ ['"']) := by
    simp [quoted, List.flatMap_map]
  have hopen : cut ⟨tokens, .between⟩ '"' = some ⟨tokens, .inText []⟩ := rfl
  have hclose : cut ⟨tokens, .inText ((text.toList.map Piece.char).reverse ++ [])⟩ '"' =
      some ⟨.text (some text) :: tokens, .between⟩ := by
    simp [cut, joinPieces_chars]
  rw [hchars, foldlM_cons_of_some hopen, foldlM_append_of_some (foldlM_cut_quotedChars _),
    foldlM_cons_of_some hclose]
  rfl

/-- The tokens of the texts after the first one. -/
def laterTokens (texts : List String) : List Token :=
  texts.flatMap fun text => [.comma, .text (some text)]

theorem foldlM_cut_later (texts : List String) :
    (texts.flatMap fun text => ',' :: (quoted text).toList).foldlM cut ⟨tokens, .between⟩ =
      some ⟨(laterTokens texts).reverse ++ tokens, .between⟩ := by
  induction texts generalizing tokens with
  | nil => rfl
  | cons text rest ih =>
    have hcomma : cut ⟨tokens, .between⟩ ',' = some ⟨.comma :: tokens, .between⟩ := rfl
    rw [List.flatMap_cons, List.cons_append, foldlM_cons_of_some hcomma,
      foldlM_append_of_some (foldlM_cut_quoted text), ih]
    simp [laterTokens]

theorem renderItems_texts (texts : List String) :
    renderItems (texts.map .text) = texts.map quoted := by
  induction texts with
  | nil => rfl
  | cons text rest ih => rw [List.map_cons, renderItems, render, ih, List.map_cons]

theorem intercalate_quoted (first : String) (rest : List String) :
    (",".intercalate ((first :: rest).map quoted)).toList =
      (quoted first).toList ++ rest.flatMap fun text => ',' :: (quoted text).toList := by
  induction rest generalizing first with
  | nil => simp
  | cons second rest ih =>
    simp only [String.toList_intercalate, List.map_cons, List.intercalate_cons_cons] at ih ⊢
    rw [ih second]
    simp

def listTokens : List String → List Token
  | [] => [.openList, .closeList]
  | first :: rest => .openList :: .text (some first) :: laterTokens rest ++ [.closeList]

/-- A written list of texts is cut into the tokens of the list. -/
theorem tokens?_render_texts (texts : List String) :
    tokens? (render (.ofTexts texts)).toList = some (listTokens texts) := by
  have hopen : cut ⟨[], .between⟩ '[' = some ⟨[.openList], .between⟩ := rfl
  have hclose : ∀ tokens, cut ⟨tokens, .between⟩ ']' = some ⟨.closeList :: tokens, .between⟩ :=
    fun _ => rfl
  cases texts with
  | nil =>
    have hchars : (render (.ofTexts [])).toList = ['[', ']'] := by
      simp [Data.ofTexts, render, renderItems]
    rw [hchars]
    rfl
  | cons first rest =>
    have hchars : (render (.ofTexts (first :: rest))).toList = '[' :: ((quoted first).toList ++
        ((rest.flatMap fun text => ',' :: (quoted text).toList) ++ [']'])) := by
      rw [Data.ofTexts, render, renderItems_texts, String.toList_append, String.toList_append,
        intercalate_quoted]
      simp
    have hcut : (render (.ofTexts (first :: rest))).toList.foldlM cut ⟨[], .between⟩ =
        some ⟨.closeList :: ((laterTokens rest).reverse ++ [.text (some first), .openList]),
          .between⟩ := by
      rw [hchars, foldlM_cons_of_some hopen, foldlM_append_of_some (foldlM_cut_quoted first),
        foldlM_append_of_some (foldlM_cut_later rest), foldlM_cons_of_some (hclose _)]
      rfl
    simp [tokens?, hcut, listTokens]

theorem foldlM_step_later (texts : List String) {b : Building} {items : List Data}
    (hframes : b.frames = [.list items]) (hneed : b.need = .more) :
    (laterTokens texts).foldlM Building.step b =
      some { b with frames := [.list ((texts.map Data.text).reverse ++ items)] } := by
  induction texts generalizing b items with
  | nil => simp [laterTokens, ← hframes]
  | cons text rest ih =>
    have hcomma : b.step .comma = some { b with need := .value } := by
      simp [Building.step, hneed, Building.afterComma, hframes]
    have htext : Building.step { b with need := .value } (.text (some text)) =
        some { b with frames := [.list (.text text :: items)] } := by
      simp [Building.step, Building.takeValue, Building.put, hframes, hneed]
    have hnext := @ih { b with frames := [.list (.text text :: items)] } _ rfl hneed
    have hcons : laterTokens (text :: rest) = .comma :: .text (some text) :: laterTokens rest := rfl
    rw [hcons, foldlM_cons_of_some hcomma, foldlM_cons_of_some htext, hnext]
    simp

/-- A list of texts is read as it was written. -/
theorem value?_render_texts (texts : List String) :
    value? (render (.ofTexts texts)) = some (.ofTexts texts) := by
  rw [value?, read?, tokens?_render_texts]
  cases texts with
  | nil => rfl
  | cons first rest =>
    have hopen : Building.step {} .openList =
        some { frames := [.list []], need := .firstItem, depth := 1 } := rfl
    have hfirst : Building.step { frames := [.list []], need := .firstItem, depth := 1 }
        (.text (some first)) =
          some { frames := [.list [.text first]], need := .more, depth := 1 } := rfl
    have hlater := @foldlM_step_later rest
      { frames := [.list [.text first]], need := .more, depth := 1 } _ rfl rfl
    have htokens : listTokens (first :: rest) =
        .openList :: .text (some first) :: (laterTokens rest ++ [.closeList]) := rfl
    have hbuilt : (listTokens (first :: rest)).foldlM Building.step {} =
        some { need := .nothing (.ofTexts (first :: rest)), depth := 1 } := by
      rw [htokens, foldlM_cons_of_some hopen, foldlM_cons_of_some hfirst,
        foldlM_append_of_some hlater]
      simp [Building.step, Building.takeClose, Building.put, Data.ofTexts]
    simp [hbuilt]

/-- A list of texts is read as what it was made of. -/
theorem texts?_ofTexts (texts : List String) : Data.texts? (.ofTexts texts) = some texts := by
  induction texts with
  | nil => rfl
  | cons text rest ih =>
    simp only [Data.texts?, Data.list?, Data.ofTexts, List.map_cons, List.mapM_cons] at ih ⊢
    simp [ih, Data.text?]

end Deliberation.Json
