import Morphology.Proofs.Document.RoundTrip
import Morphology.Proofs.Identity
import Morphology.Text.Fold

/-! Texts made of ASCII letters, digits, hyphens and full stops, with single spaces between words. No part of a
statement that is made of them has a character that marks another part, and no name a colon. -/

namespace Morphology

open Chars

namespace Text

def isWordyChar (c : Char) : Bool := c.isAlphanum || c == '-' || c == '.' || c == ' '

def IsWordy (s : String) : Prop := Text.collapse s = s ∧ ∀ c ∈ s.toList, isWordyChar c = true

instance (s : String) : Decidable (IsWordy s) :=
  have : Decidable (∀ c ∈ s.toList, isWordyChar c = true) := List.decidableBAll _ _
  inferInstanceAs (Decidable (_ ∧ _))

def IsProper (s : String) : Prop := s ≠ "" ∧ IsWordy s

namespace IsProper

variable {s : String} {c : Char} (h : IsProper s)

include h

theorem tidy : IsTidy s := ⟨h.1, h.2.1⟩

theorem not_mem (hc : isWordyChar c = false) : c ∉ s.toList := by
  intro hin
  rw [h.2.2 c hin] at hc
  cases hc

theorem not_infix {part : List Char} (hpart : c ∈ part) (hc : isWordyChar c = false) : ¬part <:+: s.toList :=
  fun hin => h.not_mem hc (hin.subset hpart)

theorem isPlain : IsPlain s := h.not_mem (by decide)

theorem isPhrase : IsPhrase s := by
  obtain ⟨hne, htidy⟩ := isTidy_iff.mp h.tidy
  obtain ⟨c, cs, hs⟩ := List.exists_cons_of_ne_nil hne
  have hc : Chars.isBlank c = false := head_of_collapse htidy c (by rw [hs]; rfl)
  refine isPhrase_iff.mpr ⟨words s.toList, ?_, htidy.symm, fun w hw => ?_⟩
  · rw [hs]
    exact words_ne_nil hc cs
  · obtain ⟨hin, hword⟩ := mem_words hw
    refine ⟨hword.1, fun d hd => ?_, fun hplus => ?_⟩
    · have hunwordy : ∀ e ∈ ['*', '[', ']', '<', '>'], isWordyChar e = false :=
        List.forall_iff_forall_mem.mp (by decide)
      have hmark : ∀ e ∈ ['*', '[', ']', '<', '>'], d ≠ e := by
        rintro e he rfl
        exact h.not_mem (hunwordy d he) (hin.subset hd)
      simp only [List.mem_cons, List.not_mem_nil, or_false, forall_eq_or_imp, forall_eq] at hmark
      simp [Token.isWordChar, hword.2 d hd, hmark]
    · exact h.not_mem (c := '+') (by decide) (hin.subset (hplus.subset List.mem_cons_self))

theorem fold_ne : fold s ≠ "" := by
  obtain ⟨hne, -⟩ := isTidy_iff.mp h.tidy
  obtain ⟨c, cs, hs⟩ := List.exists_cons_of_ne_nil hne
  have hchar : lowercaseChar c ≠ [] := by
    unfold lowercaseChar
    split
    · simp
    · split <;> simp
  have hlower : Chars.lowercase s.toList ≠ [] := by
    rw [hs, Chars.lowercase, lowercaseAfter]
    split <;> simp [hchar]
  rw [fold, h.2.1, Text.lowercase]
  simpa using hlower

end IsProper

end Text

open Text

/-! ## Statements -/

def RelationStatement.texts (r : RelationStatement) : List String :=
  [r.name, r.targetName] ++ r.subjectQuantifier.toList ++ r.adverb.toList ++ r.targetQuantifier.toList ++
    r.targetQualifier.toList ++ r.modality.toList

def AttributeStatement.texts (a : AttributeStatement) : List String :=
  [a.name, a.value] ++ a.adverb.toList ++ a.unit.toList ++ a.modality.toList

def Statement.texts : Statement → List String
  | relation r => r.texts
  | attr a => a.texts

theorem RelationStatement.forall_texts {r : RelationStatement} {P : String → Prop} :
    (∀ t ∈ r.texts, P t) ↔ P r.name ∧ P r.targetName ∧ (∀ q ∈ r.subjectQuantifier, P q) ∧ (∀ v ∈ r.adverb, P v) ∧
      (∀ q ∈ r.targetQuantifier, P q) ∧ (∀ q ∈ r.targetQualifier, P q) ∧ ∀ m ∈ r.modality, P m := by
  simp only [texts, List.forall_mem_append, List.forall_mem_cons, List.not_mem_nil, false_implies, implies_true,
    and_true, Option.mem_toList, Option.mem_def, and_assoc]

theorem AttributeStatement.forall_texts {a : AttributeStatement} {P : String → Prop} :
    (∀ t ∈ a.texts, P t) ↔ P a.name ∧ P a.value ∧ (∀ v ∈ a.adverb, P v) ∧ (∀ u ∈ a.unit, P u) ∧
      ∀ m ∈ a.modality, P m := by
  simp only [texts, List.forall_mem_append, List.forall_mem_cons, List.not_mem_nil, false_implies, implies_true,
    and_true, Option.mem_toList, Option.mem_def, and_assoc]

theorem Statement.canonical_of_proper {s : Statement} (h : ∀ t ∈ s.texts, IsProper t) : s.Canonical := by
  have single {c : Char} (hc : isWordyChar c = false) {t : String} (ht : IsProper t) : IsTidy t ∧ c ∉ t.toList :=
    ⟨ht.tidy, ht.not_mem hc⟩
  have pair {c : Char} (hc : isWordyChar c = false) {t : String} (ht : IsProper t) :
      IsTidy t ∧ ¬[c, c] <:+: t.toList ∧ ¬[c] <:+ t.toList :=
    ⟨ht.tidy, ht.not_infix List.mem_cons_self hc, fun hin => ht.not_infix List.mem_cons_self hc hin.isInfix⟩
  cases s with
  | relation r =>
    obtain ⟨hname, htarget, hsubject, hadverb, hquantifier, hqualifier, hmodality⟩ :=
      RelationStatement.forall_texts.mp h
    exact {
      subjectQuantifier := fun q hq => single (by decide) (hsubject q hq)
      adverb := fun v hv => pair (by decide) (hadverb v hv)
      name := single (by decide) hname
      targetQuantifier := fun q hq => single (by decide) (hquantifier q hq)
      targetQualifier := fun q hq => pair (by decide) (hqualifier q hq)
      targetName := htarget.isPhrase
      modality := fun m hm => single (by decide) (hmodality m hm) }
  | attr a =>
    obtain ⟨hname, hvalue, hadverb, hunit, hmodality⟩ := AttributeStatement.forall_texts.mp h
    have hunwordy : ∀ c ∈ [':', '*', '<', '>', '[', ']'], isWordyChar c = false :=
      List.forall_iff_forall_mem.mp (by decide)
    exact {
      name := ⟨hname.tidy, fun c hc hmark => hname.not_mem (hunwordy c hmark) hc⟩
      adverb := fun v hv => pair (by decide) (hadverb v hv)
      value := hvalue.isPhrase
      unit := fun u hu => single (by decide) (hunit u hu)
      modality := fun m hm => single (by decide) (hmodality m hm) }

theorem Statement.Legible.texts_ne {s : Statement} (h : s.Legible) : ∀ t ∈ s.texts, t ≠ "" := by
  have carried {kind : TokenKind} {t : String} (ht : kind.Carries t.toList) : t ≠ "" := by
    rintro rfl
    cases kind <;> exact ht.1 rfl
  have phrase {ws : List (List Char)} {t : String} (hne : ws ≠ []) (ht : t.toList = [' '].intercalate ws)
      (hws : ∀ w ∈ ws, TokenKind.word.Carries w) : t ≠ "" :=
    (isPhrase_iff.mpr ⟨ws, hne, ht, hws⟩).1.1
  cases s with
  | relation r =>
    obtain ⟨ws, hne, htarget, hcarries⟩ := h
    obtain ⟨hs, hv, hn, htq, hq, hws, hm⟩ := RelationStatement.forall_mem_contents.mp hcarries
    exact RelationStatement.forall_texts.mpr ⟨carried hn, phrase hne htarget hws, fun q h => carried (hs q h),
      fun v h => carried (hv v h), fun q h => carried (htq q h), fun q h => carried (hq q h),
      fun m h => carried (hm m h)⟩
  | attr a =>
    obtain ⟨⟨hname, -⟩, ws, hne, hvalue, hcarries⟩ := h
    obtain ⟨hv, hws, hu, hm⟩ := AttributeStatement.forall_mem_contents.mp hcarries
    exact AttributeStatement.forall_texts.mpr ⟨by simpa using hname, phrase hne hvalue hws,
      fun v h => carried (hv v h), fun u h => carried (hu u h), fun m h => carried (hm m h)⟩

/-! ## Documents -/

structure Fence.Wordy (f : Fence) : Prop where
  label : ∀ l ∈ f.label, IsWordy l
  statements : ∀ x ∈ f.statements, ∀ t ∈ x.2.texts, IsWordy t

structure Block.Wordy (b : Block) : Prop where
  name : IsWordy b.name
  qualifier : ∀ q ∈ b.qualifier, IsWordy q
  fences : ∀ f ∈ b.fences, f.Wordy

def Document.Wordy (d : Document) : Prop := ∀ b ∈ d.blocks, b.Wordy

instance (f : Fence) : Decidable f.Wordy :=
  decidable_of_iff ((∀ l ∈ f.label, IsWordy l) ∧ ∀ x ∈ f.statements, ∀ t ∈ x.2.texts, IsWordy t)
    ⟨fun h => ⟨h.1, h.2⟩, fun h => ⟨h.label, h.statements⟩⟩

instance (b : Block) : Decidable b.Wordy :=
  decidable_of_iff (IsWordy b.name ∧ (∀ q ∈ b.qualifier, IsWordy q) ∧ ∀ f ∈ b.fences, f.Wordy)
    ⟨fun h => ⟨h.1, h.2.1, h.2.2⟩, fun h => ⟨h.name, h.qualifier, h.fences⟩⟩

instance (d : Document) : Decidable d.Wordy := inferInstanceAs (Decidable (∀ b ∈ d.blocks, b.Wordy))

structure Fence.Proper (f : Fence) : Prop where
  label : ∀ l ∈ f.label, IsProper l
  statements : ∀ x ∈ f.statements, ∀ t ∈ x.2.texts, IsProper t

/-- Wordy, and nothing empty but maybe the qualifier. -/
structure Block.Proper (b : Block) : Prop where
  name : IsProper b.name
  qualifier : ∀ q ∈ b.qualifier, IsWordy q
  fences : ∀ f ∈ b.fences, f.Proper

/-- A text never gives an empty name, label or part of a statement. -/
theorem Document.Wordy.proper {text : String} (h : (parse text).Wordy) : ∀ b ∈ (parse text).blocks, b.Proper := by
  intro b hb
  obtain ⟨hname, hsaid⟩ := parse_said text b hb
  have hw := h b hb
  refine ⟨⟨hname.1, hw.name⟩, hw.qualifier, fun f hf => ?_⟩
  obtain ⟨hlabel, hlegible⟩ := hsaid f hf
  exact ⟨fun l hl => ⟨(hlabel l hl).1, (hw.fences f hf).label l hl⟩,
    fun x hx t ht => ⟨(hlegible x hx).texts_ne t ht, (hw.fences f hf).statements x hx t ht⟩⟩

end Morphology
