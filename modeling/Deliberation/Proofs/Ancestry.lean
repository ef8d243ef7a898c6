import Deliberation.Ancestry
import Deliberation.Proofs.Id

/-!
Ancestries as lists of ids. No separator occurs in the text of an id, so an ancestry can be read
from its beginning in one way only: one ancestry begins with another exactly if its ids do, and the
parts of an ancestry are the texts of its ids.
-/

namespace Deliberation.Ancestry

theorem separator_notMem_text {id : Id} : separator ∉ id.text.toList := by
  intro h
  rcases Id.mem_text h with hdigit | hminus
  · cases hdigit
  · cases hminus

def code (ids : List Id) : List Char :=
  ids.flatMap fun id => id.text.toList ++ [separator]

theorem code_cons (id : Id) (rest : List Id) :
    code (id :: rest) = id.text.toList ++ separator :: code rest := by
  simp [code]

theorem code_append (ids others : List Id) : code (ids ++ others) = code ids ++ code others :=
  List.flatMap_append

theorem toList_child (above : String) (parent : Id) :
    (child above parent).toList = above.toList ++ code [parent] := by
  simp [child, code]

theorem toList_ofIds (ids : List Id) : (ofIds ids).toList = code ids := by
  have hfrom : ∀ start : String, (ids.foldl child start).toList = start.toList ++ code ids := by
    induction ids with
    | nil =>
      intro start
      simp [code]
    | cons id rest ih =>
      intro start
      rw [List.foldl_cons, ih, toList_child, List.append_assoc, ← code_append,
        List.singleton_append]
  simpa [ofIds] using hfrom ""

theorem ofIds_append (ids : List Id) (parent : Id) :
    ofIds (ids ++ [parent]) = child (ofIds ids) parent := by
  simp [ofIds, List.foldl_append]

/-- Texts that are ended by a separator, and do not hold it, are told apart from the front. -/
theorem ended_prefix_iff {text other rest more : List Char} (htext : separator ∉ text)
    (hother : separator ∉ other) :
    text ++ separator :: rest <+: other ++ separator :: more ↔ text = other ∧ rest <+: more := by
  induction text generalizing other with
  | nil =>
    cases other with
    | nil => simp
    | cons c cs =>
      have hne : separator ≠ c := fun hsame => hother (hsame ▸ List.mem_cons_self)
      simp [hne]
  | cons c cs ih =>
    have hc : c ≠ separator := fun hsame => htext (hsame ▸ List.mem_cons_self)
    cases other with
    | nil => simp [hc]
    | cons d ds =>
      rw [List.cons_append, List.cons_append, List.cons_prefix_cons,
        ih (fun h => htext (List.mem_cons_of_mem c h)) (fun h => hother (List.mem_cons_of_mem d h)),
        List.cons.injEq, and_assoc]

/-- One code begins with another if the list of ids does, since every id ends with the mark. -/
theorem code_prefix_iff {ids others : List Id} : code ids <+: code others ↔ ids <+: others := by
  induction ids generalizing others with
  | nil => simp [code]
  | cons id rest ih =>
    cases others with
    | nil => simp [code]
    | cons other more =>
      rw [code_cons, code_cons, ended_prefix_iff separator_notMem_text separator_notMem_text, ih,
        List.cons_prefix_cons, String.toList_inj, Id.text_inj]

/-- The part in front of a separator is split off as it stands. -/
theorem parts_ended {text : List Char} (h : separator ∉ text) (rest : List Char) :
    parts (text ++ separator :: rest) = text :: parts rest := by
  induction text with
  | nil => simp [parts]
  | cons c cs ih =>
    have hc : c ≠ separator := fun hsame => h (hsame ▸ List.mem_cons_self)
    have hrest := ih fun hmem => h (List.mem_cons_of_mem c hmem)
    simp only [List.cons_append, parts, if_neg hc, hrest]

/-- An ancestry names the ids that it was made of. -/
theorem ids_ofIds {named : List Id} (h : ∀ id ∈ named, id.InRange) : ids (ofIds named) = named := by
  rw [ids, toList_ofIds]
  induction named with
  | nil => rfl
  | cons id rest ih =>
    rw [code_cons, parts_ended separator_notMem_text,
      List.filterMap_cons_some (Id.ofChars?_text (h id List.mem_cons_self)),
      ih fun other hother => h other (List.mem_cons_of_mem id hother)]

/-- The characters that ancestries are written with. -/
theorem mem_code {ids : List Id} {c : Char} (h : c ∈ code ids) :
    c.isDigit ∨ c = '-' ∨ c = separator := by
  obtain ⟨id, -, hc⟩ := List.mem_flatMap.mp h
  rcases List.mem_append.mp hc with htext | hend
  · rcases Id.mem_text htext with hdigit | hminus
    · exact Or.inl hdigit
    · exact Or.inr (Or.inl hminus)
  · exact Or.inr (Or.inr (List.mem_singleton.mp hend))

/-- An ancestry begins with another one exactly if the thread does. -/
theorem ofIds_begins_iff {named others : List Id} :
    (∃ rest, ofIds others = ofIds named ++ rest) ↔ named <+: others := by
  rw [← code_prefix_iff, ← toList_ofIds, ← toList_ofIds]
  constructor
  · rintro ⟨rest, hrest⟩
    exact ⟨rest.toList, by rw [hrest, String.toList_append]⟩
  · rintro ⟨rest, hrest⟩
    exact ⟨String.ofList rest,
      by rw [← String.toList_inj, String.toList_append, String.toList_ofList, hrest]⟩

/-- An ancestry is unambiguous: it is read as the ids that it names, no character of it is a
wildcard of a pattern, and another ancestry begins with it exactly if the ids named there begin with
its own. -/
theorem ofIds_unambiguous {named : List Id} (h : ∀ id ∈ named, id.InRange) (others : List Id) :
    ids (ofIds named) = named ∧ ('%' ∉ (ofIds named).toList ∧ '_' ∉ (ofIds named).toList) ∧
      ((∃ rest, ofIds others = ofIds named ++ rest) ↔ named <+: others) := by
  have hplain : ∀ c ∈ (ofIds named).toList, c.isDigit ∨ c = '-' ∨ c = separator := by
    rw [toList_ofIds]
    exact fun _ => mem_code
  refine ⟨ids_ofIds h, ⟨fun hany => ?_, fun hone => ?_⟩, ofIds_begins_iff⟩
  · exact absurd (hplain '%' hany) (by decide)
  · exact absurd (hplain '_' hone) (by decide)

/-- The least id is read again, and id 12 is not taken for a continuation of id 1. -/
theorem ofIds_of_least :
    (∀ id ∈ [Id.least, 1], id.InRange) ∧ ids (ofIds [Id.least, 1]) = [Id.least, 1] ∧
      (∃ rest, ofIds [Id.least, 1, 12] = ofIds [Id.least, 1] ++ rest) ∧
      ¬ ∃ rest, ofIds [Id.least, 12, Id.greatest] = ofIds [Id.least, 1] ++ rest := by
  have hrange : ∀ id ∈ [Id.least, 1], id.InRange := by decide
  refine ⟨hrange, (ofIds_unambiguous hrange []).1, ?_, fun hbegins => ?_⟩
  · exact (ofIds_unambiguous hrange _).2.2.mpr (by decide)
  · exact absurd ((ofIds_unambiguous hrange _).2.2.mp hbegins) (by decide)

end Deliberation.Ancestry
