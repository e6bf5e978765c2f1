import Mathlib.Data.List.Basic
import Morphology.Proofs.Statement.Reading

/-! The canonical line of a statement, read again. The line is the print of the statement's tokens, so that it is
read as the same statement exactly when no adverb runs into the plus signs and no qualifier into the stars that
close it. -/

namespace Morphology

open Chars Token Statement

variable {r : RelationStatement} {a : AttributeStatement} {ws : List (List Char)}

theorem wrapped_toList (kind : TokenKind) {opening closing : String} (part : Option String)
    (ho : opening.toList = kind.opening) (hc : closing.toList = kind.closing) :
    (wrapped opening part closing).map String.toList = (optional kind part).map printed := by
  cases part with
  | none => rfl
  | some text => simp [wrapped, optional, printed, ho, hc]

theorem wordContents_printed (ws : List (List Char)) : (wordContents ws).map printed = ws := by
  simp [wordContents, printed, TokenKind.opening, TokenKind.closing, Function.comp_def]

theorem RelationStatement.render_toList (hne : ws ≠ []) (htarget : r.targetName.toList = [' '].intercalate ws) :
    (Statement.relation r).render.toList = [' '].intercalate ((r.contents ws).map printed) := by
  have hname : ("<" ++ r.name ++ ">").toList = printed (.name, r.name.toList) := by
    simp [printed, TokenKind.opening, TokenKind.closing]
  have hparts : r.parts.map String.toList =
      ((optional .star r.subjectQuantifier).map printed ++ ((optional .adverb r.adverb).map printed ++
        printed (.name, r.name.toList) :: ((optional .star r.targetQuantifier).map printed ++
          (optional .qualifier r.targetQualifier).map printed))) ++
        [' '].intercalate ws :: (optional .modality r.modality).map printed := by
    simp only [RelationStatement.parts, List.map_append, List.map_cons, List.map_nil, hname, htarget]
    rw [wrapped_toList .star r.subjectQuantifier rfl rfl, wrapped_toList .adverb r.adverb rfl rfl,
      wrapped_toList .star r.targetQuantifier rfl rfl, wrapped_toList .qualifier r.targetQualifier rfl rfl,
      wrapped_toList .modality r.modality rfl rfl]
    simp
  rw [render, join_toList, hparts, intercalate_append_intercalate hne]
  simp [RelationStatement.contents, wordContents_printed]

theorem AttributeStatement.render_toList (hne : ws ≠ []) (hvalue : a.value.toList = [' '].intercalate ws) :
    (Statement.attr a).render.toList =
      'h' :: 'a' :: 's' :: ' ' :: (a.name.toList ++ ':' :: ' ' ::
        [' '].intercalate ((a.contents ws).map printed)) := by
  have hparts : a.parts.map String.toList =
      ("has " ++ a.name ++ ":").toList :: ((optional .adverb a.adverb).map printed ++
        [' '].intercalate ws :: ((optional .star a.unit).map printed ++ (optional .modality a.modality).map printed)) := by
    simp only [AttributeStatement.parts, List.map_append, List.map_cons, List.map_nil, hvalue]
    rw [wrapped_toList .adverb a.adverb rfl rfl, wrapped_toList .star a.unit rfl rfl,
      wrapped_toList .modality a.modality rfl rfl]
    simp
  rw [render, join_toList, hparts, List.intercalate_cons_of_ne_nil (by simp), intercalate_append_intercalate hne]
  simp [AttributeStatement.contents, wordContents_printed]

theorem forall_mem_optional {kind : TokenKind} {part : Option String} {P : TokenKind × List Char → Prop} :
    (∀ p ∈ optional kind part, P p) ↔ ∀ text ∈ part, P (kind, text.toList) := by
  cases part <;> simp [optional]

theorem forall_mem_wordContents {P : TokenKind × List Char → Prop} :
    (∀ p ∈ wordContents ws, P p) ↔ ∀ w ∈ ws, P (.word, w) := by
  simp [wordContents]

theorem RelationStatement.forall_mem_contents {P : TokenKind × List Char → Prop} :
    (∀ p ∈ r.contents ws, P p) ↔ (∀ q ∈ r.subjectQuantifier, P (.star, q.toList)) ∧
      (∀ v ∈ r.adverb, P (.adverb, v.toList)) ∧ P (.name, r.name.toList) ∧
      (∀ q ∈ r.targetQuantifier, P (.star, q.toList)) ∧ (∀ q ∈ r.targetQualifier, P (.qualifier, q.toList)) ∧
      (∀ w ∈ ws, P (.word, w)) ∧ ∀ m ∈ r.modality, P (.modality, m.toList) := by
  simp only [RelationStatement.contents, List.forall_mem_append, List.forall_mem_cons, forall_mem_optional,
    forall_mem_wordContents]

theorem AttributeStatement.forall_mem_contents {P : TokenKind × List Char → Prop} :
    (∀ p ∈ a.contents ws, P p) ↔ (∀ v ∈ a.adverb, P (.adverb, v.toList)) ∧ (∀ w ∈ ws, P (.word, w)) ∧
      (∀ u ∈ a.unit, P (.star, u.toList)) ∧ ∀ m ∈ a.modality, P (.modality, m.toList) := by
  simp only [AttributeStatement.contents, List.forall_mem_append, forall_mem_optional, forall_mem_wordContents]

theorem words_unique {us : List (List Char)} (hw : ∀ w ∈ ws, TokenKind.word.Carries w)
    (hu : ∀ u ∈ us, TokenKind.word.Carries u) (h : [' '].intercalate ws = [' '].intercalate us) : ws = us := by
  rw [← words_intercalate fun w hmem => isWord_of_carries (hw w hmem), h,
    words_intercalate fun u hmem => isWord_of_carries (hu u hmem)]

namespace Statement

/-- No adverb ends in a plus sign and no qualifier in a star. -/
def EndsClear : Statement → Prop
  | relation r => (∀ v ∈ r.adverb, ¬['+'] <:+ v.toList) ∧ ∀ q ∈ r.targetQualifier, ¬['*'] <:+ q.toList
  | attr a => ∀ v ∈ a.adverb, ¬['+'] <:+ v.toList

theorem endsClear_relation (ws : List (List Char)) :
    (relation r).EndsClear ↔ ∀ p ∈ r.contents ws, p.1.EndsClear p.2 := by
  rw [RelationStatement.forall_mem_contents]
  simp [EndsClear, TokenKind.EndsClear]

theorem endsClear_attr (ws : List (List Char)) :
    (attr a).EndsClear ↔ ∀ p ∈ a.contents ws, p.1.EndsClear p.2 := by
  rw [AttributeStatement.forall_mem_contents]
  simp [EndsClear, TokenKind.EndsClear]

theorem parseChars_relation {c : Char} {cs : List Char} {line : Nat} (hb : isBlank c = false) (hc : c ≠ 'h') :
    parseChars (c :: cs) line = parseRelation (c :: cs) line 1 := by
  have htrim : trimStart (c :: cs) = c :: cs := List.dropWhile_cons_of_neg (by simp [hb])
  have hhas : afterHas? (c :: cs) = none := by simp [afterHas?, hc]
  simp [parseChars, htrim, hhas]

theorem parseChars_attribute {cs : List Char} {line : Nat} :
    parseChars ('h' :: 'a' :: 's' :: ' ' :: cs) line = parseAttribute (' ' :: cs) line 1 := by
  have htrim : trimStart ('h' :: 'a' :: 's' :: ' ' :: cs) = 'h' :: 'a' :: 's' :: ' ' :: cs :=
    List.dropWhile_cons_of_neg (by decide)
  have hhas : afterHas? ('h' :: 'a' :: 's' :: ' ' :: cs) = some (' ' :: cs) := by
    simp [afterHas?, show isBlank ' ' = true by decide]
  simp [parseChars, htrim, hhas]

theorem relation_head (r : RelationStatement) (ws : List (List Char)) :
    ∃ c cs, [' '].intercalate ((r.contents ws).map printed) = c :: cs ∧ c ∈ ['*', '+', '<'] := by
  obtain ⟨⟨kind, text⟩, ps, hps, hkind⟩ :
      ∃ p ps, r.contents ws = p :: ps ∧ (p.1 = .star ∨ p.1 = .adverb ∨ p.1 = .name) := by
    cases hs : r.subjectQuantifier <;> cases hv : r.adverb <;> simp [RelationStatement.contents, optional, hs, hv]
  obtain ⟨c, cs, hp, hc⟩ : ∃ c cs, printed (kind, text) = c :: cs ∧ c ∈ ['*', '+', '<'] := by
    rcases hkind with rfl | rfl | rfl <;> exact ⟨_, _, rfl, by decide⟩
  rw [hps, List.map_cons, hp]
  cases ps with
  | nil => exact ⟨c, cs, by simp, hc⟩
  | cons q ps => exact ⟨c, _, by rw [List.map_cons, List.intercalate_cons_cons, List.cons_append, List.cons_append], hc⟩

theorem parse_render_relation (line : Nat) (h : r.Legible) :
    parse (relation r).render line = .ok (relation r) ↔ (relation r).EndsClear := by
  obtain ⟨ws, hne, htarget, hcarries⟩ := h
  obtain ⟨c, cs, hhead, hc⟩ := relation_head r ws
  have hstart : ∀ c ∈ ['*', '+', '<'], isBlank c = false ∧ c ≠ 'h' := List.forall_iff_forall_mem.mp (by decide)
  obtain ⟨hb, hc⟩ := hstart c hc
  rw [parse_eq_ok, RelationStatement.render_toList hne htarget, hhead, parseChars_relation hb hc, ← hhead,
    parseRelation_eq_ok, endsClear_relation ws, ← lexes_printed_iff hcarries]
  constructor
  · rintro ⟨_, us, ⟨⟩, -, hus, hl⟩
    have hw := (RelationStatement.forall_mem_contents.mp hcarries).2.2.2.2.2.1
    have hu := (RelationStatement.forall_mem_contents.mp (carries_of_lexes hl)).2.2.2.2.2.1
    rwa [words_unique hw hu (htarget.symm.trans hus)] at hl ⊢
  · intro hl
    exact ⟨r, ws, rfl, hne, htarget, hl⟩

theorem parse_render_attr (line : Nat) (h : a.Legible) :
    parse (attr a).render line = .ok (attr a) ↔ (attr a).EndsClear := by
  obtain ⟨⟨hname, htidy, hcolon, hchars⟩, ws, hne, hvalue, hcarries⟩ := h
  have hsplit (rest : List Char) :
      splitFirst [':'] (' ' :: (a.name.toList ++ ':' :: rest)) = some (' ' :: a.name.toList, rest) :=
    splitFirst_single (w := ' ' :: a.name.toList) (by simp [hcolon])
  rw [parse_eq_ok, AttributeStatement.render_toList hne hvalue, parseChars_attribute, parseAttribute_eq_ok,
    endsClear_attr ws, ← lexes_printed_iff hcarries]
  constructor
  · rintro ⟨_, us, _, _, ⟨⟩, hcut, -, -, -, -, hus, hl⟩
    rw [hsplit] at hcut
    cases hcut
    rw [lexes_blank (by decide)] at hl
    have hw := (AttributeStatement.forall_mem_contents.mp hcarries).2.1
    have hu := (AttributeStatement.forall_mem_contents.mp (carries_of_lexes hl)).2.1
    rwa [words_unique hw hu (hvalue.symm.trans hus)] at hl ⊢
  · intro hl
    refine ⟨a, ws, _, _, rfl, hsplit _, ?_, hname, hchars, hne, hvalue, (lexes_blank (by decide)).mpr hl⟩
    rw [collapse_cons_blank (by decide), htidy]

theorem printed_blanks {p : TokenKind × List Char} (h : p.1.Carries p.2) :
    ∀ c ∈ printed p, isBlank c = true → c = ' ' := by
  obtain ⟨kind, text⟩ := p
  intro c hc hb
  by_cases hkind : kind = .word
  · subst hkind
    have hnot := (isWord_of_carries h).2 c (by simpa [printed, TokenKind.opening, TokenKind.closing] using hc)
    simp [hb] at hnot
  · have htext : collapse text = text := by cases kind <;> first | exact absurd rfl hkind | exact h.2.1
    have hmark : c ∉ kind.opening ∧ c ∉ kind.closing := by
      constructor <;> intro hin <;> cases kind <;> simp [TokenKind.opening, TokenKind.closing] at hin <;>
        subst hin <;> exact absurd hb (by decide)
    rw [printed, List.mem_append, List.mem_append] at hc
    rcases hc with (hc | hc) | hc
    · exact absurd hc hmark.1
    · exact eq_space_of_mem_collapse hb (htext ▸ hc)
    · exact absurd hc hmark.2

theorem intercalate_printed_blanks {ps : List (TokenKind × List Char)} (h : ∀ p ∈ ps, p.1.Carries p.2) :
    ∀ c ∈ [' '].intercalate (ps.map printed), isBlank c = true → c = ' ' := by
  intro c hc hb
  by_contra hne
  obtain ⟨w, hw, hcw⟩ := mem_intercalate hne hc
  obtain ⟨p, hp, rfl⟩ := List.mem_map.mp hw
  exact hne (printed_blanks (h p hp) c hcw hb)

/-- The line of a statement has no blanks but spaces. -/
theorem render_blanks {s : Statement} (h : s.Legible) : ∀ c ∈ s.render.toList, isBlank c = true → c = ' ' := by
  cases s with
  | relation r =>
    obtain ⟨ws, hne, htarget, hcarries⟩ := h
    rw [RelationStatement.render_toList hne htarget]
    exact intercalate_printed_blanks hcarries
  | attr a =>
    obtain ⟨⟨-, htidy, -, -⟩, ws, hne, hvalue, hcarries⟩ := h
    rw [AttributeStatement.render_toList hne hvalue]
    intro c hc hb
    simp only [List.mem_cons, List.mem_append] at hc
    rcases hc with rfl | rfl | rfl | rfl | hc | rfl | rfl | hc
    · cases hb
    · cases hb
    · cases hb
    · rfl
    · exact eq_space_of_mem_collapse hb (htidy ▸ hc)
    · cases hb
    · rfl
    · exact intercalate_printed_blanks hcarries c hc hb

/-- The line of a statement starts with the mark of a token or with `has`. -/
theorem render_head {s : Statement} (h : s.Legible) :
    ∃ c cs, s.render.toList = c :: cs ∧ c ∈ ['*', '+', '<', 'h'] := by
  cases s with
  | relation r =>
    obtain ⟨ws, hne, htarget, -⟩ := h
    rw [RelationStatement.render_toList hne htarget]
    obtain ⟨c, cs, hhead, hc⟩ := relation_head r ws
    exact ⟨c, cs, hhead, by simp at hc ⊢; tauto⟩
  | attr a =>
    obtain ⟨-, ws, hne, hvalue, -⟩ := h
    rw [AttributeStatement.render_toList hne hvalue]
    exact ⟨'h', _, rfl, by decide⟩

/-- Read again, the line of a statement that a line can state gives this statement exactly when its texts end
clear of their closing delimiters. -/
theorem parse_render_iff_endsClear {s : Statement} (line : Nat) (h : s.Legible) :
    parse s.render line = .ok s ↔ s.EndsClear := by
  cases s with
  | relation r => exact parse_render_relation line h
  | attr a => exact parse_render_attr line h

end Statement

end Morphology
