import Mathlib.Computability.RegularExpressions
import Morphology.Proofs.Statement.Reading

/-! Which lines are statements, told from the kinds of their tokens: the forms of relations and of attribute values are
regular. The tokens of a line that has the form can be taken apart in one way only, and each part of the statement is
the text of the tokens that stand for it. -/

namespace Morphology

open Chars

namespace Statement

open Token

/-! ## Forms of tokens -/

def mayHave (kind : TokenKind) : RegularExpression TokenKind := 1 + .char kind

def oneOrMore (kind : TokenKind) : RegularExpression TokenKind := .char kind * (RegularExpression.char kind).star

def relationForm : RegularExpression TokenKind :=
  mayHave .star * mayHave .adverb * .char .name * mayHave .star * mayHave .qualifier * oneOrMore .word *
    mayHave .modality

def attributeForm : RegularExpression TokenKind :=
  mayHave .adverb * oneOrMore .word * mayHave .star * mayHave .modality

/-- The kinds of the tokens make up a word of the form. -/
def HasForm (form : RegularExpression TokenKind) (ts : List Token) : Prop := ts.map (·.kind) ∈ form.matches'

section Forms

variable {P Q : RegularExpression TokenKind} {kind : TokenKind} {ts : List Token}

theorem hasForm_mul : HasForm (P * Q) ts ↔ ∃ us vs, HasForm P us ∧ HasForm Q vs ∧ us ++ vs = ts := by
  unfold HasForm
  rw [RegularExpression.matches'_mul, Language.mem_mul]
  constructor
  · rintro ⟨as, has, bs, hbs, hab⟩
    obtain ⟨us, vs, rfl, rfl, rfl⟩ := List.map_eq_append_iff.mp hab.symm
    exact ⟨us, vs, has, hbs, rfl⟩
  · rintro ⟨us, vs, hus, hvs, rfl⟩
    exact ⟨_, hus, _, hvs, List.map_append.symm⟩

theorem hasForm_char : HasForm (.char kind) ts ↔ ∃ t : Token, t.kind = kind ∧ [t] = ts := by
  have hone : HasForm (.char kind) ts ↔ ts.map (·.kind) = [kind] := Iff.rfl
  rw [hone, List.map_eq_singleton_iff]
  constructor
  · rintro ⟨t, rfl, hk⟩
    exact ⟨t, hk, rfl⟩
  · rintro ⟨t, hk, rfl⟩
    exact ⟨t, rfl, hk⟩

theorem hasForm_mayHave : HasForm (mayHave kind) ts ↔ ∃ o : Option Token, (∀ t ∈ o, t.kind = kind) ∧ o.toList = ts := by
  have hsum : HasForm (mayHave kind) ts ↔ ts.map (·.kind) = [] ∨ HasForm (.char kind) ts := Iff.rfl
  rw [hsum, hasForm_char, List.map_eq_nil_iff]
  constructor
  · rintro (rfl | ⟨t, hk, rfl⟩)
    · exact ⟨none, by simp, rfl⟩
    · exact ⟨some t, by simpa using hk, rfl⟩
  · rintro ⟨o, ho, rfl⟩
    cases o with
    | none => exact Or.inl rfl
    | some t => exact Or.inr ⟨t, ho t rfl, rfl⟩

theorem hasForm_star : HasForm (RegularExpression.char kind).star ts ↔ ∀ t ∈ ts, t.kind = kind := by
  unfold HasForm
  rw [RegularExpression.matches'_star, Language.mem_kstar]
  constructor
  · rintro ⟨parts, hparts, hall⟩ t ht
    have hk : t.kind ∈ parts.flatten := hparts ▸ List.mem_map_of_mem ht
    obtain ⟨part, hpart, hk⟩ := List.mem_flatten.mp hk
    have hone : part = [kind] := hall part hpart
    simpa [hone] using hk
  · intro hall
    refine ⟨ts.map fun _ => [kind], ?_, fun part hpart => ?_⟩
    · induction ts with
      | nil => rfl
      | cons t ts ih =>
        have hrest := ih fun u hu => hall u (List.mem_cons_of_mem _ hu)
        simp [hall t List.mem_cons_self, hrest]
    · obtain ⟨_, -, rfl⟩ := List.mem_map.mp hpart
      exact Set.mem_singleton [kind]

theorem hasForm_oneOrMore : HasForm (oneOrMore kind) ts ↔ ts ≠ [] ∧ ∀ t ∈ ts, t.kind = kind := by
  rw [oneOrMore, hasForm_mul]
  simp only [hasForm_char, hasForm_star]
  constructor
  · rintro ⟨_, vs, ⟨t, hk, rfl⟩, hvs, rfl⟩
    exact ⟨by simp, List.forall_mem_cons.mpr ⟨hk, hvs⟩⟩
  · rintro ⟨hne, hall⟩
    cases ts with
    | nil => exact absurd rfl hne
    | cons t ts =>
      obtain ⟨hk, hrest⟩ := List.forall_mem_cons.mp hall
      exact ⟨[t], ts, ⟨t, hk, rfl⟩, hrest, rfl⟩

end Forms

/-! ## What the tokens stand for -/

end Statement

/-- The tokens of a relation, by what they stand for. -/
structure RelationTokens where
  subjectQuantifier : Option Token
  adverb : Option Token
  name : Token
  targetQuantifier : Option Token
  targetQualifier : Option Token
  words : List Token
  modality : Option Token
  subjectQuantifier_kind : ∀ t ∈ subjectQuantifier, t.kind = .star
  adverb_kind : ∀ t ∈ adverb, t.kind = .adverb
  name_kind : name.kind = .name
  targetQuantifier_kind : ∀ t ∈ targetQuantifier, t.kind = .star
  targetQualifier_kind : ∀ t ∈ targetQualifier, t.kind = .qualifier
  words_kind : words ≠ [] ∧ ∀ t ∈ words, t.kind = .word
  modality_kind : ∀ t ∈ modality, t.kind = .modality

/-- The tokens of an attribute's value, by what they stand for. -/
structure AttributeTokens where
  adverb : Option Token
  words : List Token
  unit : Option Token
  modality : Option Token
  adverb_kind : ∀ t ∈ adverb, t.kind = .adverb
  words_kind : words ≠ [] ∧ ∀ t ∈ words, t.kind = .word
  unit_kind : ∀ t ∈ unit, t.kind = .star
  modality_kind : ∀ t ∈ modality, t.kind = .modality

namespace RelationTokens

/-- All of the tokens, each once. -/
def tokens (p : RelationTokens) : List Token :=
  p.subjectQuantifier.toList ++ p.adverb.toList ++ [p.name] ++ p.targetQuantifier.toList ++ p.targetQualifier.toList ++
    p.words ++ p.modality.toList

def statement (p : RelationTokens) : RelationStatement where
  subjectQuantifier := p.subjectQuantifier.map (·.text)
  adverb := p.adverb.map (·.text)
  name := p.name.text
  targetQuantifier := p.targetQuantifier.map (·.text)
  targetQualifier := p.targetQualifier.map (·.text)
  targetName := Text.join " " (p.words.map (·.text))
  modality := p.modality.map (·.text)

end RelationTokens

namespace AttributeTokens

/-- All of the tokens, each once. -/
def tokens (p : AttributeTokens) : List Token :=
  p.adverb.toList ++ p.words ++ p.unit.toList ++ p.modality.toList

def statement (p : AttributeTokens) (name : String) : AttributeStatement where
  name := name
  adverb := p.adverb.map (·.text)
  value := Text.join " " (p.words.map (·.text))
  unit := p.unit.map (·.text)
  modality := p.modality.map (·.text)

end AttributeTokens

namespace Statement

open Token

section Parts

variable {ts : List Token} {kind : TokenKind}

theorem hasForm_relationForm : HasForm relationForm ts ↔ ∃ p : RelationTokens, p.tokens = ts := by
  simp only [relationForm, hasForm_mul, hasForm_mayHave, hasForm_char, hasForm_oneOrMore]
  constructor
  · rintro ⟨_, _, ⟨_, _, ⟨_, _, ⟨_, _, ⟨_, _, ⟨_, _, ⟨o₁, h₁, rfl⟩, ⟨o₂, h₂, rfl⟩, rfl⟩, ⟨t, h₃, rfl⟩, rfl⟩, ⟨o₄, h₄, rfl⟩, rfl⟩,
      ⟨o₅, h₅, rfl⟩, rfl⟩, h₆, rfl⟩, ⟨o₇, h₇, rfl⟩, rfl⟩
    exact ⟨⟨o₁, o₂, t, o₄, o₅, _, o₇, h₁, h₂, h₃, h₄, h₅, h₆, h₇⟩, rfl⟩
  · rintro ⟨p, rfl⟩
    exact ⟨_, _, ⟨_, _, ⟨_, _, ⟨_, _, ⟨_, _, ⟨_, _, ⟨_, p.subjectQuantifier_kind, rfl⟩, ⟨_, p.adverb_kind, rfl⟩, rfl⟩,
      ⟨_, p.name_kind, rfl⟩, rfl⟩, ⟨_, p.targetQuantifier_kind, rfl⟩, rfl⟩, ⟨_, p.targetQualifier_kind, rfl⟩, rfl⟩,
      p.words_kind, rfl⟩, ⟨_, p.modality_kind, rfl⟩, rfl⟩

theorem hasForm_attributeForm : HasForm attributeForm ts ↔ ∃ p : AttributeTokens, p.tokens = ts := by
  simp only [attributeForm, hasForm_mul, hasForm_mayHave, hasForm_oneOrMore]
  constructor
  · rintro ⟨_, _, ⟨_, _, ⟨_, _, ⟨o₁, h₁, rfl⟩, h₂, rfl⟩, ⟨o₃, h₃, rfl⟩, rfl⟩, ⟨o₄, h₄, rfl⟩, rfl⟩
    exact ⟨⟨o₁, _, o₃, o₄, h₁, h₂, h₃, h₄⟩, rfl⟩
  · rintro ⟨p, rfl⟩
    exact ⟨_, _, ⟨_, _, ⟨_, _, ⟨_, p.adverb_kind, rfl⟩, p.words_kind, rfl⟩, ⟨_, p.unit_kind, rfl⟩, rfl⟩,
      ⟨_, p.modality_kind, rfl⟩, rfl⟩

/-- A token of the kind stands for a part that is there. -/
theorem map_content_optional {o : Option Token} (h : ∀ t ∈ o, t.kind = kind) :
    o.toList.map content = optional kind (o.map (·.text)) := by
  cases o with
  | none => rfl
  | some t => simp [optional, content, h t rfl]

theorem map_content_words (h : ∀ t ∈ ts, t.kind = .word) :
    ts.map content = wordContents (ts.map fun t => t.text.toList) := by
  rw [wordContents, List.map_map]
  refine List.map_congr_left fun t ht => ?_
  simp [content, h t ht]

theorem exists_token_of_optional {part : Option String} {cs : List (TokenKind × List Char)}
    (h : ts.map content = optional kind part ++ cs) : ∃ (o : Option Token) (rest : List Token),
      (∀ t ∈ o, t.kind = kind) ∧ o.map (·.text) = part ∧ o.toList ++ rest = ts ∧ rest.map content = cs := by
  cases part with
  | none => exact ⟨none, ts, by simp, rfl, rfl, h⟩
  | some text =>
    obtain ⟨t, rest, rfl, ht, hrest⟩ := List.map_eq_cons_iff.mp h
    obtain ⟨hk, htext⟩ := Prod.mk.inj ht
    exact ⟨some t, rest, by simpa using hk, by simp [String.toList_inj.mp htext], rfl, hrest⟩

theorem exists_tokens_of_words {ws : List (List Char)} {cs : List (TokenKind × List Char)}
    (h : ts.map content = wordContents ws ++ cs) : ∃ words rest : List Token, (∀ t ∈ words, t.kind = .word) ∧
      (words.map fun t => t.text.toList) = ws ∧ words ++ rest = ts ∧ rest.map content = cs := by
  induction ws generalizing ts with
  | nil => exact ⟨[], ts, by simp, rfl, rfl, h⟩
  | cons w ws ih =>
    obtain ⟨t, ts, rfl, ht, htail⟩ := List.map_eq_cons_iff.mp h
    obtain ⟨hk, htext⟩ := Prod.mk.inj ht
    obtain ⟨words, rest, hwords, htexts, rfl, hrest⟩ := ih htail
    exact ⟨t :: words, rest, List.forall_mem_cons.mpr ⟨hk, hwords⟩, by simp [htext, htexts], rfl, hrest⟩

theorem join_words {words : List Token} {ws : List (List Char)} {text : String} (hws : (words.map fun t => t.text.toList) = ws)
    (htext : text.toList = [' '].intercalate ws) : Text.join " " (words.map (·.text)) = text := by
  refine String.toList_inj.mp ?_
  rw [join_toList, htext, ← hws, List.map_map]
  rfl

theorem relationOf_eq_ok_iff {stop : Span} {r : RelationStatement} :
    relationOf ts stop = .ok r ↔ ∃ p : RelationTokens, p.tokens = ts ∧ p.statement = r := by
  rw [relationOf_eq_ok]
  constructor
  · rintro ⟨ws, hne, htarget, hall⟩
    obtain ⟨o₁, _, h₁, hsubject, rfl, hs₁⟩ := exists_token_of_optional hall
    obtain ⟨o₂, _, h₂, hadverb, rfl, hs₂⟩ := exists_token_of_optional hs₁
    obtain ⟨t, _, rfl, ht, hs₃⟩ := List.map_eq_cons_iff.mp hs₂
    obtain ⟨h₃, hname⟩ := Prod.mk.inj ht
    obtain ⟨o₄, _, h₄, hquantifier, rfl, hs₄⟩ := exists_token_of_optional hs₃
    obtain ⟨o₅, _, h₅, hqualifier, rfl, hs₅⟩ := exists_token_of_optional hs₄
    obtain ⟨words, _, h₆, hws, rfl, hs₆⟩ := exists_tokens_of_words hs₅
    rw [← List.append_nil (optional .modality r.modality)] at hs₆
    obtain ⟨o₇, _, h₇, hmodality, rfl, hs₇⟩ := exists_token_of_optional hs₆
    have hend := List.map_eq_nil_iff.mp hs₇
    have hwords : words ≠ [] := by
      rintro rfl
      exact hne hws.symm
    refine ⟨⟨o₁, o₂, t, o₄, o₅, words, o₇, h₁, h₂, h₃, h₄, h₅, ⟨hwords, h₆⟩, h₇⟩, ?_, ?_⟩
    · simp [RelationTokens.tokens, hend]
    · have hjoin := join_words hws htarget
      simp only [RelationTokens.statement, hsubject, hadverb, hquantifier, hqualifier, hmodality, hjoin,
        String.toList_inj.mp hname]
  · rintro ⟨p, rfl, rfl⟩
    refine ⟨p.words.map fun t => t.text.toList, by simpa using p.words_kind.1, ?_, ?_⟩
    · rw [RelationTokens.statement, join_toList, List.map_map]
      rfl
    · simp [RelationTokens.tokens, RelationStatement.contents, RelationTokens.statement, content, p.name_kind,
        map_content_optional p.subjectQuantifier_kind, map_content_optional p.adverb_kind,
        map_content_optional p.targetQuantifier_kind, map_content_optional p.targetQualifier_kind,
        map_content_optional p.modality_kind, map_content_words p.words_kind.2]

theorem attributeOf_eq_ok_iff {stop : Span} {name : String} {a : AttributeStatement} :
    attributeOf name ts stop = .ok a ↔ ∃ p : AttributeTokens, p.tokens = ts ∧ p.statement name = a := by
  rw [attributeOf_eq_ok]
  constructor
  · rintro ⟨rfl, ws, hne, hvalue, hall⟩
    obtain ⟨o₁, _, h₁, hadverb, rfl, hs₁⟩ := exists_token_of_optional hall
    obtain ⟨words, _, h₂, hws, rfl, hs₂⟩ := exists_tokens_of_words hs₁
    obtain ⟨o₃, _, h₃, hunit, rfl, hs₃⟩ := exists_token_of_optional hs₂
    rw [← List.append_nil (optional .modality a.modality)] at hs₃
    obtain ⟨o₄, _, h₄, hmodality, rfl, hs₄⟩ := exists_token_of_optional hs₃
    have hend := List.map_eq_nil_iff.mp hs₄
    have hwords : words ≠ [] := by
      rintro rfl
      exact hne hws.symm
    refine ⟨⟨o₁, words, o₃, o₄, h₁, ⟨hwords, h₂⟩, h₃, h₄⟩, ?_, ?_⟩
    · simp [AttributeTokens.tokens, hend]
    · have hjoin := join_words hws hvalue
      simp only [AttributeTokens.statement, hadverb, hunit, hmodality, hjoin]
  · rintro ⟨p, rfl, rfl⟩
    refine ⟨rfl, p.words.map fun t => t.text.toList, by simpa using p.words_kind.1, ?_, ?_⟩
    · rw [AttributeTokens.statement, join_toList, List.map_map]
      rfl
    · simp [AttributeTokens.tokens, AttributeStatement.contents, AttributeTokens.statement,
        map_content_optional p.adverb_kind, map_content_optional p.unit_kind, map_content_optional p.modality_kind,
        map_content_words p.words_kind.2]

end Parts

/-! ## Lines -/

/-- The tokens of the end of a line, in the columns of the line. -/
def tokensOfEnd (raw : String) (line : Nat) (text : List Char) : Except ParseError (List Token) :=
  Token.tokens text line (raw.toList.length - text.length + 1)

/-- The text starts with the word `has` and a blank, and `rest` follows that word. -/
def StatesAttribute (text rest : List Char) : Prop :=
  text = ['h', 'a', 's'] ++ rest ∧ ∃ c ∈ rest.head?, isBlank c = true

/-- What an attribute may be called. -/
def IsAttributeName (name : List Char) : Prop := name ≠ [] ∧ ∀ c ∈ name, c ∉ ['*', '<', '>', '[', ']']

section Lines

variable {raw : String} {line : Nat} {text rest : List Char} {s : Statement}

theorem afterHas?_eq_some_iff : afterHas? text = some rest ↔ StatesAttribute text rest := by
  unfold StatesAttribute
  constructor
  · intro h
    unfold afterHas? at h
    split at h
    · split at h
      · rename_i hblank
        cases h
        exact ⟨rfl, _, rfl, hblank⟩
      · cases h
    · cases h
  · rintro ⟨rfl, c, hc, hblank⟩
    cases rest with
    | nil => cases hc
    | cons d rest =>
      cases hc
      simp [afterHas?, hblank]

theorem afterHas?_eq_none_iff : afterHas? text = none ↔ ∀ rest, ¬StatesAttribute text rest := by
  simp only [← afterHas?_eq_some_iff, Option.eq_none_iff_forall_ne_some, ne_eq]

theorem isAttributeName_iff {name : List Char} : IsAttributeName name ↔ ¬(name = [] ∨ name.all isNameChar = false) := by
  simp [IsAttributeName, isNameChar, and_assoc]

theorem splitFirst_eq_some_iff {c : Char} {cs before after : List Char} :
    splitFirst [c] cs = some (before, after) ↔ cs = before ++ c :: after ∧ c ∉ before := by
  constructor
  · intro h
    have hcs := splitFirst_eq h
    rw [List.append_assoc] at hcs
    have hnot := not_infix_of_splitFirst (by simp) h
    exact ⟨hcs, fun hc => hnot ((List.singleton_infix_iff c before).mpr hc)⟩
  · rintro ⟨rfl, hc⟩
    exact splitFirst_single hc

theorem parse_relation_iff (h : ∀ rest, ¬StatesAttribute (trimStart raw.toList) rest) : parse raw line = .ok s ↔
    ∃ p : RelationTokens, tokensOfEnd raw line (trimStart raw.toList) = .ok p.tokens ∧ s = .relation p.statement := by
  have hempty : trimStart raw.toList = [] → ∀ p : RelationTokens,
      tokensOfEnd raw line (trimStart raw.toList) ≠ .ok p.tokens := by
    intro hnil p hp
    simp [hnil, tokensOfEnd, Token.tokens, tokensFrom, RelationTokens.tokens] at hp
  rw [parse_eq_ok, parseChars]
  simp only [afterHas?_eq_none_iff.mpr h]
  by_cases hnil : trimStart raw.toList = []
  · have hne := hempty hnil
    simp [hnil] at hne ⊢
    exact fun p hp => absurd hp (hne p)
  · rw [if_neg hnil]
    simp only [parseRelation, bind_eq_ok, relationOf_eq_ok_iff, tokensOfEnd]
    constructor
    · rintro ⟨_, htokens, _, ⟨p, rfl, rfl⟩, hs⟩
      cases hs
      exact ⟨p, htokens, rfl⟩
    · rintro ⟨p, htokens, rfl⟩
      exact ⟨_, htokens, _, ⟨p, rfl, rfl⟩, rfl⟩

theorem parseAttribute_eq_ok_iff {column : Nat} : parseAttribute rest line column = .ok s ↔
    ∃ before value, splitFirst [':'] rest = some (before, value) ∧ IsAttributeName (collapse before) ∧
      ∃ p : AttributeTokens, Token.tokens value line (column + 3 + before.length + 1) = .ok p.tokens ∧
        s = .attr (p.statement (String.ofList (collapse before))) := by
  unfold parseAttribute
  cases hsplit : splitFirst [':'] rest with
  | none => simp
  | some cut =>
    obtain ⟨before, value⟩ := cut
    simp only [Option.some.injEq, Prod.mk.injEq]
    by_cases hname : IsAttributeName (collapse before)
    · rw [if_neg (isAttributeName_iff.mp hname)]
      simp only [bind_eq_ok, attributeOf_eq_ok_iff]
      constructor
      · rintro ⟨_, htokens, _, ⟨p, rfl, rfl⟩, hs⟩
        cases hs
        exact ⟨before, value, ⟨rfl, rfl⟩, hname, p, htokens, rfl⟩
      · rintro ⟨_, _, ⟨rfl, rfl⟩, -, p, htokens, rfl⟩
        exact ⟨_, htokens, _, ⟨p, rfl, rfl⟩, rfl⟩
    · rw [if_pos (not_not.mp (mt isAttributeName_iff.mpr hname))]
      simp only [reduceCtorEq, false_iff, not_exists, not_and]
      rintro _ _ ⟨rfl, rfl⟩ hgood
      exact absurd hgood hname

theorem parse_attribute_iff (h : StatesAttribute (trimStart raw.toList) rest) : parse raw line = .ok s ↔
    ∃ before value, (rest = before ++ ':' :: value ∧ ':' ∉ before) ∧ IsAttributeName (collapse before) ∧
      ∃ p : AttributeTokens, tokensOfEnd raw line value = .ok p.tokens ∧
        s = .attr (p.statement (String.ofList (collapse before))) := by
  have hbody : trimStart raw.toList ≠ [] := by simp [h.1]
  have hlength : (trimStart raw.toList).length ≤ raw.toList.length := (List.dropWhile_suffix _).length_le
  have hcolumn : ∀ before value, rest = before ++ ':' :: value →
      raw.toList.length - (trimStart raw.toList).length + 1 + 3 + before.length + 1 =
        raw.toList.length - value.length + 1 := by
    rintro before value rfl
    simp only [h.1, List.length_append, List.length_cons, List.length_nil] at hlength ⊢
    omega
  rw [parse_eq_ok, parseChars, if_neg hbody]
  simp only [afterHas?_eq_some_iff.mpr h, parseAttribute_eq_ok_iff, splitFirst_eq_some_iff, tokensOfEnd]
  refine exists_congr fun before => exists_congr fun value => and_congr_right fun hcut => ?_
  rw [hcolumn before value hcut.1]

end Lines

/-- Lines that start with `has` state attributes, others relations, just where their tokens have the form; and then each
part of the statement is the text of the tokens that stand for it, which are all of the tokens. -/
theorem accepts_iff_form (raw : String) (line : Nat) :
    (∀ rest, StatesAttribute (trimStart raw.toList) rest →
      ((∃ s, parse raw line = .ok s) ↔ ∃ before value, (rest = before ++ ':' :: value ∧ ':' ∉ before) ∧
        IsAttributeName (collapse before) ∧ ∃ ts, tokensOfEnd raw line value = .ok ts ∧ HasForm attributeForm ts) ∧
      ∀ s, parse raw line = .ok s ↔ ∃ before value, (rest = before ++ ':' :: value ∧ ':' ∉ before) ∧
        IsAttributeName (collapse before) ∧ ∃ p : AttributeTokens, tokensOfEnd raw line value = .ok p.tokens ∧
          s = .attr (p.statement (String.ofList (collapse before)))) ∧
    ((∀ rest, ¬StatesAttribute (trimStart raw.toList) rest) →
      ((∃ s, parse raw line = .ok s) ↔ ∃ ts, tokensOfEnd raw line (trimStart raw.toList) = .ok ts ∧
        HasForm relationForm ts) ∧
      ∀ s, parse raw line = .ok s ↔ ∃ p : RelationTokens,
        tokensOfEnd raw line (trimStart raw.toList) = .ok p.tokens ∧ s = .relation p.statement) := by
  refine ⟨fun rest h => ⟨?_, fun s => parse_attribute_iff h⟩, fun h => ⟨?_, fun s => parse_relation_iff h⟩⟩
  · simp only [parse_attribute_iff h, hasForm_attributeForm]
    constructor
    · rintro ⟨_, before, value, hcut, hname, p, htokens, -⟩
      exact ⟨before, value, hcut, hname, p.tokens, htokens, p, rfl⟩
    · rintro ⟨before, value, hcut, hname, _, htokens, p, rfl⟩
      exact ⟨_, before, value, hcut, hname, p, htokens, rfl⟩
  · simp only [parse_relation_iff h, hasForm_relationForm]
    constructor
    · rintro ⟨_, p, htokens, -⟩
      exact ⟨p.tokens, htokens, p, rfl⟩
    · rintro ⟨_, htokens, p, rfl⟩
      exact ⟨_, p, htokens, rfl⟩

def feeding : RelationStatement where
  subjectQuantifier := some "Most"
  adverb := some "often"
  name := "eats"
  targetQuantifier := some "two"
  targetQualifier := some "fat"
  targetName := "brown worms"
  modality := some "maybe"

def spanning : AttributeStatement where
  name := "wing span"
  adverb := some "about"
  value := "9"
  unit := some "dm"

/-- Stars stand for three things; where no relation follows, the first one stands for nothing. -/
theorem form_feeding :
    (∃ p : RelationTokens, tokensOfEnd "  *Most* ++often++ <eats> *two* **fat** brown  worms [maybe]" 1
      "*Most* ++often++ <eats> *two* **fat** brown  worms [maybe]".toList = .ok p.tokens ∧ p.statement = feeding) ∧
    (¬∃ ts, tokensOfEnd "*two* worms" 1 "*two* worms".toList = .ok ts ∧ HasForm relationForm ts) ∧
    ∃ p : AttributeTokens, tokensOfEnd "has wing span: ++about++ 9 *dm*" 1 " ++about++ 9 *dm*".toList = .ok p.tokens ∧
      p.statement "wing span" = spanning := by
  have hfeeding : parse "  *Most* ++often++ <eats> *two* **fat** brown  worms [maybe]" 1 = .ok (.relation feeding) := by
    decide +kernel
  have hstar : parse "*two* worms" 1 = .error ⟨.unexpected .relationName .star, ⟨0, 5, 1, 1⟩, "*two* worms"⟩ := by
    decide +kernel
  have hspanning : parse "has wing span: ++about++ 9 *dm*" 1 = .ok (.attr spanning) := by decide +kernel
  obtain ⟨-, hread⟩ := (accepts_iff_form "  *Most* ++often++ <eats> *two* **fat** brown  worms [maybe]" 1).2
    (afterHas?_eq_none_iff.mp (by decide +kernel))
  obtain ⟨haccepted, -⟩ := (accepts_iff_form "*two* worms" 1).2 (afterHas?_eq_none_iff.mp (by decide +kernel))
  obtain ⟨-, hvalue⟩ := (accepts_iff_form "has wing span: ++about++ 9 *dm*" 1).1 " wing span: ++about++ 9 *dm*".toList
    (afterHas?_eq_some_iff.mp (by decide +kernel))
  refine ⟨?_, fun hform => ?_, ?_⟩
  · obtain ⟨p, htokens, hp⟩ := (hread _).mp hfeeding
    exact ⟨p, htokens, (Statement.relation.inj hp).symm⟩
  · obtain ⟨s, hs⟩ := haccepted.mpr hform
    rw [hstar] at hs
    cases hs
  · obtain ⟨before, value, ⟨hrest, hcolon⟩, -, p, htokens, hp⟩ := (hvalue _).mp hspanning
    have hcut : splitFirst [':'] " wing span: ++about++ 9 *dm*".toList =
        some (" wing span".toList, " ++about++ 9 *dm*".toList) := by decide +kernel
    rw [splitFirst_eq_some_iff.mpr ⟨hrest, hcolon⟩] at hcut
    cases hcut
    exact ⟨p, htokens, (Statement.attr.inj hp).symm⟩

end Statement

end Morphology
