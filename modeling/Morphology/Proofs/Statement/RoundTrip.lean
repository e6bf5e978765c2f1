import Morphology.Proofs.Statement.Rendering

/-! The statements that survive rendering and reading, told by their texts alone. -/

namespace Morphology

open Chars Token

/-- Not empty, the words joined by single spaces. -/
def Text.IsTidy (s : String) : Prop := s ≠ "" ∧ Text.collapse s = s

/-- What the name of a target or a value may be: no delimiter, and no word that would start an adverb. -/
def Text.IsPhrase (s : String) : Prop :=
  Text.IsTidy s ∧ (∀ c ∈ s.toList, c ∉ ['*', '[', ']', '<', '>']) ∧ ∀ w ∈ s.toList.splitOn ' ', ¬['+', '+'] <+: w

open Text

instance (s : String) : Decidable (IsTidy s) := inferInstanceAs (Decidable (_ ∧ _))

instance (s : String) : Decidable (IsPhrase s) :=
  have : Decidable (∀ c ∈ s.toList, c ∉ ['*', '[', ']', '<', '>']) := List.decidableBAll _ _
  inferInstanceAs (Decidable (_ ∧ _ ∧ _))

structure RelationStatement.Canonical (r : RelationStatement) : Prop where
  subjectQuantifier : ∀ q ∈ r.subjectQuantifier, IsTidy q ∧ '*' ∉ q.toList
  adverb : ∀ v ∈ r.adverb, IsTidy v ∧ ¬['+', '+'] <:+: v.toList ∧ ¬['+'] <:+ v.toList
  name : IsTidy r.name ∧ '>' ∉ r.name.toList
  targetQuantifier : ∀ q ∈ r.targetQuantifier, IsTidy q ∧ '*' ∉ q.toList
  targetQualifier : ∀ q ∈ r.targetQualifier, IsTidy q ∧ ¬['*', '*'] <:+: q.toList ∧ ¬['*'] <:+ q.toList
  targetName : IsPhrase r.targetName
  modality : ∀ m ∈ r.modality, IsTidy m ∧ ']' ∉ m.toList

structure AttributeStatement.Canonical (a : AttributeStatement) : Prop where
  name : IsTidy a.name ∧ ∀ c ∈ a.name.toList, c ∉ [':', '*', '<', '>', '[', ']']
  adverb : ∀ v ∈ a.adverb, IsTidy v ∧ ¬['+', '+'] <:+: v.toList ∧ ¬['+'] <:+ v.toList
  value : IsPhrase a.value
  unit : ∀ u ∈ a.unit, IsTidy u ∧ '*' ∉ u.toList
  modality : ∀ m ∈ a.modality, IsTidy m ∧ ']' ∉ m.toList

def Statement.Canonical : Statement → Prop
  | relation r => r.Canonical
  | attr a => a.Canonical

theorem Text.isTidy_iff {s : String} : IsTidy s ↔ s.toList ≠ [] ∧ Chars.collapse s.toList = s.toList :=
  and_congr (by simp) collapse_eq_iff

theorem Text.collapse?_of_isTidy {q : Option String} (h : ∀ s ∈ q, IsTidy s) : collapse? q = q := by
  cases q with
  | none => rfl
  | some s =>
    have hs := h s rfl
    simp [collapse?, hs.2, Option.filter, hs.1]

theorem carries_delimited {kind : TokenKind} (hkind : kind ≠ .word) {s : String} :
    kind.Carries s.toList ↔ IsTidy s ∧ ¬kind.closing <:+: s.toList := by
  rw [isTidy_iff, and_assoc]
  cases kind with
  | word => exact absurd rfl hkind
  | _ => exact Iff.rfl

theorem carries_single {kind : TokenKind} {c : Char} (hkind : kind.closing = [c]) {s : String} :
    kind.Carries s.toList ↔ IsTidy s ∧ c ∉ s.toList := by
  have hword : kind ≠ .word := by
    rintro rfl
    cases hkind
  rw [carries_delimited hword, hkind, List.singleton_infix_iff]

theorem carries_pair {kind : TokenKind} {c : Char} (hkind : kind.closing = [c, c]) {s : String} :
    kind.Carries s.toList ↔ IsTidy s ∧ ¬[c, c] <:+: s.toList := by
  have hword : kind ≠ .word := by
    rintro rfl
    cases hkind
  rw [carries_delimited hword, hkind]

/-- A phrase is some words that tokens may have, and these are its words. -/
theorem isPhrase_iff {s : String} :
    IsPhrase s ↔ ∃ ws, ws ≠ [] ∧ s.toList = [' '].intercalate ws ∧ ∀ w ∈ ws, TokenKind.word.Carries w := by
  constructor
  · rintro ⟨htidy, hchars, hplus⟩
    obtain ⟨hne, hcollapse⟩ := isTidy_iff.mp htidy
    have hws : words s.toList ≠ [] := by
      intro hnil
      rw [← hcollapse, Chars.collapse, hnil] at hne
      exact hne rfl
    have hspace : ∀ w ∈ words s.toList, ' ' ∉ w := fun w hw hin => absurd ((mem_words hw).2.2 ' ' hin) (by decide)
    refine ⟨words s.toList, hws, hcollapse.symm, fun w hw => ⟨(mem_words hw).2.1, fun c hc => ?_, hplus w ?_⟩⟩
    · have hblank := (mem_words hw).2.2 c hc
      have hnot := hchars c ((mem_words hw).1.subset hc)
      simp only [List.mem_cons, List.not_mem_nil, or_false, not_or] at hnot
      simp [isWordChar, hblank, hnot]
    · rw [← hcollapse, Chars.collapse, List.splitOn_intercalate ' ' hspace hws]
      exact hw
  · rintro ⟨ws, hne, htext, hcarries⟩
    have hword : ∀ w ∈ ws, IsWord w := fun w hw => isWord_of_carries (hcarries w hw)
    have hspace : ∀ w ∈ ws, ' ' ∉ w := fun w hw hin => absurd ((hword w hw).2 ' ' hin) (by decide)
    refine ⟨isTidy_iff.mpr ⟨?_, by rw [htext, collapse_intercalate hword]⟩, fun c hc => ?_, ?_⟩
    · intro hnil
      rw [hnil] at htext
      have hws := words_intercalate hword
      rw [← htext] at hws
      exact hne hws.symm
    · by_cases hc' : c = ' '
      · subst hc'
        decide
      · have hin : [c] <:+: [' '].intercalate ws := (List.singleton_infix_iff c _).mpr (htext ▸ hc)
        obtain ⟨w, hw, hcw⟩ := infix_intercalate (by simp) (by simpa using Ne.symm hc') hin
        have hchar := (hcarries w hw).2.1 c (hcw.subset List.mem_cons_self)
        simp only [isWordChar, Bool.and_eq_true, bne_iff_ne] at hchar
        simp [hchar]
    · rw [htext, List.splitOn_intercalate ' ' hspace hne]
      exact fun w hw => (hcarries w hw).2.2

theorem RelationStatement.canonical_iff {r : RelationStatement} :
    r.Canonical ↔ r.Legible ∧ (Statement.relation r).EndsClear := by
  constructor
  · intro h
    obtain ⟨ws, hne, htarget, hws⟩ := isPhrase_iff.mp h.targetName
    refine ⟨⟨ws, hne, htarget, forall_mem_contents.mpr ⟨?_, ?_, ?_, ?_, ?_, hws, ?_⟩⟩, ?_, ?_⟩
    · exact fun q hq => (carries_single rfl).mpr (h.subjectQuantifier q hq)
    · exact fun v hv => (carries_pair rfl).mpr ⟨(h.adverb v hv).1, (h.adverb v hv).2.1⟩
    · exact (carries_single rfl).mpr h.name
    · exact fun q hq => (carries_single rfl).mpr (h.targetQuantifier q hq)
    · exact fun q hq => (carries_pair rfl).mpr ⟨(h.targetQualifier q hq).1, (h.targetQualifier q hq).2.1⟩
    · exact fun m hm => (carries_single rfl).mpr (h.modality m hm)
    · exact fun v hv => (h.adverb v hv).2.2
    · exact fun q hq => (h.targetQualifier q hq).2.2
  · rintro ⟨⟨ws, hne, htarget, hcarries⟩, hadverb, hqualifier⟩
    obtain ⟨hs, hv, hn, htq, hq, hws, hm⟩ := forall_mem_contents.mp hcarries
    have hv' {v} (hin : v ∈ r.adverb) := (carries_pair rfl).mp (hv v hin)
    have hq' {q} (hin : q ∈ r.targetQualifier) := (carries_pair rfl).mp (hq q hin)
    exact {
      subjectQuantifier := fun q hin => (carries_single rfl).mp (hs q hin)
      adverb := fun v hin => ⟨(hv' hin).1, (hv' hin).2, hadverb v hin⟩
      name := (carries_single rfl).mp hn
      targetQuantifier := fun q hin => (carries_single rfl).mp (htq q hin)
      targetQualifier := fun q hin => ⟨(hq' hin).1, (hq' hin).2, hqualifier q hin⟩
      targetName := isPhrase_iff.mpr ⟨ws, hne, htarget, hws⟩
      modality := fun m hin => (carries_single rfl).mp (hm m hin) }

theorem AttributeStatement.canonical_iff {a : AttributeStatement} :
    a.Canonical ↔ a.Legible ∧ (Statement.attr a).EndsClear := by
  have hname : (IsTidy a.name ∧ ∀ c ∈ a.name.toList, c ∉ [':', '*', '<', '>', '[', ']']) ↔
      a.name.toList ≠ [] ∧ Chars.collapse a.name.toList = a.name.toList ∧ ':' ∉ a.name.toList ∧
        a.name.toList.all Statement.isNameChar = true := by
    rw [isTidy_iff, and_assoc, List.all_eq_true]
    refine and_congr_right fun _ => and_congr_right fun _ => ⟨fun h => ⟨?_, fun c hc => ?_⟩, fun h c hc => ?_⟩
    · exact fun hin => h ':' hin (by decide)
    · have hnot := h c hc
      simp only [List.mem_cons, List.not_mem_nil, or_false, not_or] at hnot
      simp [Statement.isNameChar, hnot]
    · have hgood := h.2 c hc
      have hcolon : c ≠ ':' := by
        rintro rfl
        exact h.1 hc
      simp only [Statement.isNameChar, Bool.and_eq_true, bne_iff_ne] at hgood
      simp [hgood, hcolon]
  constructor
  · intro h
    obtain ⟨ws, hne, hvalue, hws⟩ := isPhrase_iff.mp h.value
    refine ⟨⟨hname.mp h.name, ws, hne, hvalue, forall_mem_contents.mpr ⟨?_, hws, ?_, ?_⟩⟩, ?_⟩
    · exact fun v hv => (carries_pair rfl).mpr ⟨(h.adverb v hv).1, (h.adverb v hv).2.1⟩
    · exact fun u hu => (carries_single rfl).mpr (h.unit u hu)
    · exact fun m hm => (carries_single rfl).mpr (h.modality m hm)
    · exact fun v hv => (h.adverb v hv).2.2
  · rintro ⟨⟨hnamed, ws, hne, hvalue, hcarries⟩, hadverb⟩
    obtain ⟨hv, hws, hu, hm⟩ := forall_mem_contents.mp hcarries
    have hv' {v} (hin : v ∈ a.adverb) := (carries_pair rfl).mp (hv v hin)
    exact {
      name := hname.mpr hnamed
      adverb := fun v hin => ⟨(hv' hin).1, (hv' hin).2, hadverb v hin⟩
      value := isPhrase_iff.mpr ⟨ws, hne, hvalue, hws⟩
      unit := fun u hin => (carries_single rfl).mp (hu u hin)
      modality := fun m hin => (carries_single rfl).mp (hm m hin) }

namespace Statement

theorem canonical_iff {s : Statement} : s.Canonical ↔ s.Legible ∧ s.EndsClear := by
  cases s with
  | relation r => exact RelationStatement.canonical_iff
  | attr a => exact AttributeStatement.canonical_iff

/-- The statements that are read from their own lines are the canonical ones. -/
theorem parse_render_iff_canonical (s : Statement) (line : Nat) : parse s.render line = .ok s ↔ s.Canonical := by
  rw [canonical_iff]
  constructor
  · intro h
    have hlegible := legible_of_parse h
    exact ⟨hlegible, (parse_render_iff_endsClear line hlegible).mp h⟩
  · rintro ⟨hlegible, hclear⟩
    exact (parse_render_iff_endsClear line hlegible).mpr hclear

/-- A statement that was read is read again from its own line exactly when no adverb of it ends in a plus sign and
no qualifier in a star. -/
theorem parse_render_of_parse {raw : String} {line : Nat} {s : Statement} (h : parse raw line = .ok s) :
    parse s.render line = .ok s ↔ s.EndsClear :=
  parse_render_iff_endsClear line (legible_of_parse h)

def topMarks : Statement := .relation { adverb := some "A+", name := "passed", targetName := "biology" }

theorem parse_topMarks : parse "++ A+ ++ <passed> biology" 1 = .ok topMarks := by
  have hwords : Lexes " biology".toList [(.word, "biology".toList)] :=
    .blank (c := ' ') (by decide) (.token (c := 'b') (by decide) rfl .nil)
  have hname : Lexes " <passed> biology".toList [(.name, "passed".toList), (.word, "biology".toList)] :=
    .blank (c := ' ') (by decide) (.token (c := '<') (by decide) rfl hwords)
  have hadverb : Lexes "++ A+ ++ <passed> biology".toList
      [(.adverb, "A+".toList), (.name, "passed".toList), (.word, "biology".toList)] :=
    .token (c := '+') (by decide) rfl hname
  rw [parse_eq_ok]
  exact parseRelation_eq_ok.mpr ⟨_, ["biology".toList], rfl, by decide, rfl, hadverb⟩

/-- The line of this statement, with its three plus signs in a row, is not read as the statement. -/
theorem parse_render_topMarks :
    parse "++ A+ ++ <passed> biology" 1 = .ok topMarks ∧ parse topMarks.render 1 ≠ .ok topMarks := by
  refine ⟨parse_topMarks, fun h => ?_⟩
  have hclear := (parse_render_of_parse parse_topMarks).mp h
  exact hclear.1 "A+" rfl (by decide)

end Statement

end Morphology
