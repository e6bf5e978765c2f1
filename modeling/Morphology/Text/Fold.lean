import Morphology.Text.Blank
import Morphology.Text.Lowercase

/-! Two texts name the same thing when they fold to the same key: blanks collapsed, letters small. A slug is
a key that can stand inside an id. -/

namespace Morphology.Text

def fold (s : String) : String :=
  lowercase (collapse s)

/-- Spaces become low lines, and the characters that ids use as separators become hyphens. -/
def slugChar (c : Char) : Char :=
  if c = ' ' then '_' else if c = '/' ∨ c = ':' then '-' else c

def slug (s : String) : String :=
  String.ofList ((fold s).toList.map slugChar)

theorem slugChar_ne_separator (c : Char) : slugChar c ≠ '/' ∧ slugChar c ≠ ':' := by
  unfold slugChar
  split
  · decide
  · split
    · decide
    · rename_i h
      exact ⟨fun hc => h (Or.inl hc), fun hc => h (Or.inr hc)⟩

theorem separator_not_mem_slug (s : String) : '/' ∉ (slug s).toList ∧ ':' ∉ (slug s).toList := by
  simp only [slug, String.toList_ofList, List.mem_map, not_exists, not_and]
  exact ⟨fun c _ h => (slugChar_ne_separator c).1 h, fun c _ h => (slugChar_ne_separator c).2 h⟩

end Morphology.Text
