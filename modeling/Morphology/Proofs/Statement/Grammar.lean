import Morphology.Proofs.Outcome
import Morphology.Proofs.Statement.Lexing
import Morphology.Statement.Parse

/-! The grammar of statements. A list of tokens is read as a statement exactly when it is the list of that
statement's parts in their order, the name of the target or the value as its words. -/

namespace Morphology

open Chars

def optional (kind : TokenKind) (part : Option String) : List (TokenKind × List Char) :=
  match part with
  | some text => [(kind, text.toList)]
  | none => []

def wordContents (ws : List (List Char)) : List (TokenKind × List Char) := ws.map fun w => (.word, w)

/-- The tokens of a relation whose target's name has the words `ws`. -/
def RelationStatement.contents (r : RelationStatement) (ws : List (List Char)) : List (TokenKind × List Char) :=
  optional .star r.subjectQuantifier ++ (optional .adverb r.adverb ++ (.name, r.name.toList) ::
    (optional .star r.targetQuantifier ++ (optional .qualifier r.targetQualifier ++ (wordContents ws ++
      optional .modality r.modality))))

def AttributeStatement.contents (a : AttributeStatement) (ws : List (List Char)) :
    List (TokenKind × List Char) :=
  optional .adverb a.adverb ++ (wordContents ws ++ (optional .star a.unit ++ optional .modality a.modality))

namespace Statement

open Token

variable {ts rest : List Token} {cs : List (TokenKind × List Char)} {kind : TokenKind} {part : Option String}
  {stop : Span} {what : Expected}

theorem content_of_take (h : take kind ts = (part, rest)) :
    ts.map content = optional kind part ++ rest.map content := by
  cases ts with
  | nil =>
    cases h
    rfl
  | cons t ts =>
    simp only [take] at h
    split at h
    · rename_i hk
      cases h
      simp [optional, content, hk]
    · cases h
      rfl

theorem take_of_content (h : ts.map content = optional kind part ++ cs) (hcs : ∀ p ∈ cs.head?, p.1 ≠ kind) :
    ∃ rest, take kind ts = (part, rest) ∧ rest.map content = cs := by
  cases part with
  | none =>
    refine ⟨ts, ?_, h⟩
    cases ts with
    | nil => rfl
    | cons t ts =>
      have hk : t.kind ≠ kind := by
        refine hcs (content t) ?_
        rw [← show _ = cs from h]
        rfl
      simp [take, hk]
  | some text =>
    obtain ⟨t, ts, rfl, ht, hrest⟩ := List.map_eq_cons_iff.mp h
    obtain ⟨hk, htext⟩ := Prod.mk.inj ht
    exact ⟨ts, by simp [take, hk, String.toList_inj.mp htext], hrest⟩

theorem content_of_takeSubject (h : takeSubject ts = (part, rest)) :
    ts.map content = optional .star part ++ rest.map content := by
  unfold takeSubject at h
  split at h
  · split at h
    · rename_i hk
      cases h
      simp [optional, content, hk.1]
    · cases h
      rfl
  · cases h
    rfl

theorem takeSubject_of_content (h : ts.map content = optional .star part ++ cs)
    (hcs : ∃ p ∈ cs.head?, p.1 = .adverb ∨ p.1 = .name) :
    ∃ rest, takeSubject ts = (part, rest) ∧ rest.map content = cs := by
  obtain ⟨p, hp, hkind⟩ := hcs
  obtain ⟨cs, rfl⟩ : ∃ cs', cs = p :: cs' := by
    cases cs with
    | nil => cases hp
    | cons q cs =>
      cases hp
      exact ⟨cs, rfl⟩
  cases part with
  | none =>
    obtain ⟨t, ts, rfl, rfl, hrest⟩ := List.map_eq_cons_iff.mp h
    refine ⟨t :: ts, ?_, by rw [List.map_cons, hrest]⟩
    have hne : t.kind ≠ .star := by
      intro hstar
      simp [content, hstar] at hkind
    cases ts with
    | nil => rfl
    | cons u ts => simp [takeSubject, hne]
  | some text =>
    obtain ⟨s, ts, rfl, hs, hrest⟩ := List.map_eq_cons_iff.mp h
    obtain ⟨t, ts, rfl, rfl, htail⟩ := List.map_eq_cons_iff.mp hrest
    obtain ⟨hk, htext⟩ := Prod.mk.inj hs
    refine ⟨t :: ts, ?_, by rw [List.map_cons, htail]⟩
    have hkind : t.kind = .adverb ∨ t.kind = .name := hkind
    simp [takeSubject, hk, hkind, String.toList_inj.mp htext]

theorem content_of_takeWords {texts : List String} (h : takeWords ts = (texts, rest)) :
    ts.map content = wordContents (texts.map String.toList) ++ rest.map content := by
  induction ts generalizing texts rest with
  | nil =>
    cases h
    rfl
  | cons t ts ih =>
    simp only [takeWords] at h
    split at h
    · rename_i hk
      cases h
      rw [List.map_cons, ih rfl]
      simp [wordContents, content, hk]
    · cases h
      rfl

theorem takeWords_of_content {ws : List (List Char)} (h : ts.map content = wordContents ws ++ cs)
    (hcs : ∀ p ∈ cs.head?, p.1 ≠ .word) :
    ∃ rest, takeWords ts = (ws.map String.ofList, rest) ∧ rest.map content = cs := by
  induction ws generalizing ts with
  | nil =>
    refine ⟨ts, ?_, h⟩
    cases ts with
    | nil => rfl
    | cons t ts =>
      have hk : t.kind ≠ .word := by
        refine hcs (content t) ?_
        rw [← show _ = cs from h]
        rfl
      simp [takeWords, hk]
  | cons w ws ih =>
    obtain ⟨t, ts, rfl, ht, hrest⟩ := List.map_eq_cons_iff.mp h
    obtain ⟨rest, htake, hmap⟩ := ih hrest
    obtain ⟨hk, htext⟩ := Prod.mk.inj ht
    refine ⟨rest, ?_, hmap⟩
    simp [takeWords, hk, htake, ← htext]

theorem expectName_eq_ok {name : String} :
    expectName stop ts = .ok (name, rest) ↔ take .name ts = (some name, rest) := by
  unfold expectName
  split <;> simp_all

theorem expectWords_eq_ok {text : String} :
    expectWords what stop ts = .ok (text, rest) ↔
      ∃ texts, texts ≠ [] ∧ takeWords ts = (texts, rest) ∧ text = Text.join " " texts := by
  unfold expectWords
  rcases takeWords ts with ⟨texts, rest'⟩
  cases texts with
  | nil => simp
  | cons first texts =>
    simp only [Except.ok.injEq, Prod.mk.injEq]
    constructor
    · rintro ⟨rfl, rfl⟩
      exact ⟨first :: texts, by simp, ⟨rfl, rfl⟩, rfl⟩
    · rintro ⟨_, -, ⟨rfl, rfl⟩, rfl⟩
      exact ⟨rfl, rfl⟩

theorem expectEnd_eq_ok {u : Unit} : expectEnd stop ts = .ok u ↔ ts = [] := by
  cases ts <;> simp [expectEnd]

theorem join_toList (texts : List String) :
    (Text.join " " texts).toList = [' '].intercalate (texts.map String.toList) :=
  String.toList_intercalate

theorem content_of_relationOf {r : RelationStatement} (h : relationOf ts stop = .ok r) :
    ∃ ws, ws ≠ [] ∧ r.targetName.toList = [' '].intercalate ws ∧ ts.map content = r.contents ws := by
  unfold relationOf at h
  rcases hsubject : takeSubject ts with ⟨subject, t₁⟩
  rcases hadverb : take .adverb t₁ with ⟨adverb, t₂⟩
  simp only [hsubject, hadverb, bind_eq_ok, Prod.exists] at h
  obtain ⟨name, t₃, hname, h⟩ := h
  rcases hquantifier : take .star t₃ with ⟨quantifier, t₄⟩
  rcases hqualifier : take .qualifier t₄ with ⟨qualifier, t₅⟩
  simp only [hquantifier, hqualifier] at h
  obtain ⟨target, t₆, htarget, h⟩ := h
  rcases hmodality : take .modality t₆ with ⟨modality, t₇⟩
  simp only [hmodality] at h
  obtain ⟨_, hend, h⟩ := h
  cases h
  obtain ⟨texts, hne, hwords, rfl⟩ := expectWords_eq_ok.mp htarget
  refine ⟨texts.map String.toList, by simpa using hne, join_toList texts, ?_⟩
  rw [content_of_takeSubject hsubject, content_of_take hadverb, content_of_take (expectName_eq_ok.mp hname),
    content_of_take hquantifier, content_of_take hqualifier, content_of_takeWords hwords,
    content_of_take hmodality, expectEnd_eq_ok.mp hend]
  simp [RelationStatement.contents, optional]

theorem relationOf_of_content {r : RelationStatement} {ws : List (List Char)} (hne : ws ≠ [])
    (htarget : r.targetName.toList = [' '].intercalate ws) (h : ts.map content = r.contents ws) :
    relationOf ts stop = .ok r := by
  have hafter : ∀ p ∈ (optional .modality r.modality).head?, p.1 ≠ .word := by
    cases r.modality <;> simp [optional]
  have hwords {kind} (hk : kind ≠ .word) :
      ∀ p ∈ (wordContents ws ++ optional .modality r.modality).head?, p.1 ≠ kind := by
    cases ws with
    | nil => exact absurd rfl hne
    | cons w ws => simpa [wordContents] using hk.symm
  obtain ⟨t₁, hsubject, h⟩ := takeSubject_of_content h (by cases r.adverb <;> simp [optional])
  obtain ⟨t₂, hadverb, h⟩ := take_of_content h (by simp)
  obtain ⟨t, t₃, rfl, ht, h⟩ := List.map_eq_cons_iff.mp h
  obtain ⟨hk, hname⟩ := Prod.mk.inj ht
  have hname : take .name (t :: t₃) = (some r.name, t₃) := by
    simp [take, hk, String.toList_inj.mp hname]
  obtain ⟨t₄, hquantifier, h⟩ := take_of_content h (by
    cases r.targetQualifier
    · exact hwords (by decide)
    · simp [optional])
  obtain ⟨t₅, hqualifier, h⟩ := take_of_content h (hwords (by decide))
  obtain ⟨t₆, htake, h⟩ := takeWords_of_content h hafter
  rw [← List.append_nil (optional .modality r.modality)] at h
  obtain ⟨t₇, hmodality, h⟩ := take_of_content h (by simp)
  have hend : t₇ = [] := List.map_eq_nil_iff.mp h
  have htext : r.targetName = Text.join " " (ws.map String.ofList) := by
    refine String.toList_inj.mp ?_
    rw [join_toList, htarget, List.map_map]
    simp [Function.comp_def]
  have hphrase : expectWords .targetName stop t₅ = .ok (r.targetName, t₆) :=
    expectWords_eq_ok.mpr ⟨_, by simpa using hne, htake, htext⟩
  unfold relationOf
  simp only [hsubject, hadverb, bind_eq_ok, Prod.exists]
  refine ⟨_, _, expectName_eq_ok.mpr hname, ?_⟩
  simp only [hquantifier, hqualifier]
  refine ⟨_, _, hphrase, (), ?_, ?_⟩
  · rw [hmodality]
    exact expectEnd_eq_ok.mpr hend
  · rw [hmodality]
    rfl

theorem relationOf_eq_ok {r : RelationStatement} :
    relationOf ts stop = .ok r ↔
      ∃ ws, ws ≠ [] ∧ r.targetName.toList = [' '].intercalate ws ∧ ts.map content = r.contents ws :=
  ⟨content_of_relationOf, fun ⟨_, hne, htarget, h⟩ => relationOf_of_content hne htarget h⟩

theorem content_of_attributeOf {name : String} {a : AttributeStatement} (h : attributeOf name ts stop = .ok a) :
    a.name = name ∧ ∃ ws, ws ≠ [] ∧ a.value.toList = [' '].intercalate ws ∧ ts.map content = a.contents ws := by
  unfold attributeOf at h
  rcases hadverb : take .adverb ts with ⟨adverb, t₁⟩
  simp only [hadverb, bind_eq_ok, Prod.exists] at h
  obtain ⟨value, t₂, hvalue, h⟩ := h
  rcases hunit : take .star t₂ with ⟨unit, t₃⟩
  rcases hmodality : take .modality t₃ with ⟨modality, t₄⟩
  simp only [hunit, hmodality] at h
  obtain ⟨_, hend, h⟩ := h
  cases h
  obtain ⟨texts, hne, hwords, rfl⟩ := expectWords_eq_ok.mp hvalue
  refine ⟨rfl, texts.map String.toList, by simpa using hne, join_toList texts, ?_⟩
  rw [content_of_take hadverb, content_of_takeWords hwords, content_of_take hunit, content_of_take hmodality,
    expectEnd_eq_ok.mp hend]
  simp [AttributeStatement.contents]

theorem attributeOf_of_content {a : AttributeStatement} {ws : List (List Char)} (hne : ws ≠ [])
    (hvalue : a.value.toList = [' '].intercalate ws) (h : ts.map content = a.contents ws) :
    attributeOf a.name ts stop = .ok a := by
  have hafter : ∀ p ∈ (optional .star a.unit ++ optional .modality a.modality).head?, p.1 ≠ .word := by
    cases a.unit <;> cases a.modality <;> simp [optional]
  have hmodal : ∀ p ∈ (optional .modality a.modality).head?, p.1 ≠ .star := by
    cases a.modality <;> simp [optional]
  obtain ⟨t₁, hadverb, h⟩ := take_of_content h (by
    cases ws with
    | nil => exact absurd rfl hne
    | cons w ws => simp [wordContents])
  obtain ⟨t₂, htake, h⟩ := takeWords_of_content h hafter
  obtain ⟨t₃, hunit, h⟩ := take_of_content h hmodal
  rw [← List.append_nil (optional .modality a.modality)] at h
  obtain ⟨t₄, hmodality, h⟩ := take_of_content h (by simp)
  have hend : t₄ = [] := List.map_eq_nil_iff.mp h
  have htext : a.value = Text.join " " (ws.map String.ofList) := by
    refine String.toList_inj.mp ?_
    rw [join_toList, hvalue, List.map_map]
    simp [Function.comp_def]
  have hphrase : expectWords .attributeValue stop t₁ = .ok (a.value, t₂) :=
    expectWords_eq_ok.mpr ⟨_, by simpa using hne, htake, htext⟩
  unfold attributeOf
  simp only [hadverb, bind_eq_ok, Prod.exists]
  refine ⟨_, _, hphrase, (), ?_, ?_⟩
  · rw [hunit, hmodality]
    exact expectEnd_eq_ok.mpr hend
  · rw [hunit, hmodality]
    rfl

theorem attributeOf_eq_ok {name : String} {a : AttributeStatement} :
    attributeOf name ts stop = .ok a ↔ a.name = name ∧
      ∃ ws, ws ≠ [] ∧ a.value.toList = [' '].intercalate ws ∧ ts.map content = a.contents ws := by
  refine ⟨content_of_attributeOf, ?_⟩
  rintro ⟨rfl, ws, hne, hvalue, h⟩
  exact attributeOf_of_content hne hvalue h

end Statement

end Morphology
