import Morphology.Proofs.Text
import Morphology.Scenario.Directive

/-! Directives are read as they are written. The words in front tell the nine forms apart, though a node might be named
for a type; behind them the names stand between marks that are in none of them, and are cut at the first of each. -/

namespace Morphology

open Text

namespace Directive

/-- A name in which none of the marks of a directive stands. -/
structure IsName (s : String) : Prop where
  nonempty : s ≠ ""
  trimmed : trim s = s
  unmarked : ∀ c ∈ s.toList, c ≠ '>' ∧ c ≠ ':' ∧ c ≠ '='
  noFrom : "from".toList ∉ Chars.words s.toList

structure IsNodeName (s : String) : Prop extends IsName s where
  noType : (Chars.words s.toList).head? ≠ some "type".toList

structure IsPath (p : MorphPath) : Prop where
  node : IsNodeName p.node
  morph : IsName p.morph

/-- All names in a directive can be written in it. -/
def Named : Directive → Prop
  | addMorph place seed => IsPath place ∧ ∀ s ∈ seed, IsName s
  | switch place => IsPath place
  | unlist place edge => IsPath place ∧ IsName edge
  | deleteMorph place => IsPath place
  | deleteNode name => IsNodeName name
  | deleteType _ name => IsName name
  | transition name input output => IsName name ∧ IsPath input ∧ IsPath output

end Directive

def MorphPath.written (p : MorphPath) : String := p.node ++ " > " ++ p.morph

namespace Directive

def keyword : Directive → Keyword
  | addMorph _ _ => .addMorph
  | switch _ => .switch
  | unlist _ _ => .unlist
  | deleteMorph _ => .deleteMorph
  | deleteNode _ => .deleteNode
  | deleteType .nodeType _ => .deleteNodeType
  | deleteType .relationType _ => .deleteRelationType
  | deleteType .attributeType _ => .deleteAttributeType
  | transition _ _ _ => .transition

def phrase : Directive → String
  | addMorph _ _ => "add morph "
  | switch _ => "switch "
  | unlist _ _ => "unlist "
  | deleteMorph _ => "delete morph "
  | deleteNode _ => "delete node "
  | deleteType .nodeType _ => "delete node type "
  | deleteType .relationType _ => "delete relation type "
  | deleteType .attributeType _ => "delete attribute type "
  | transition _ _ _ => "transition "

def arguments : Directive → String
  | addMorph place none => place.written
  | addMorph place (some seed) => place.written ++ " from " ++ seed
  | switch place => place.written
  | unlist place edge => place.written ++ " : " ++ edge
  | deleteMorph place => place.written
  | deleteNode name => name
  | deleteType _ name => name
  | transition name input output => name ++ ": " ++ input.written ++ " => " ++ output.written

/-- The line of a directive, as it is documented. -/
def written (d : Directive) : String := "@" ++ d.phrase ++ d.arguments

variable {s a b name : String} {p input output : MorphPath} {d : Directive}

/-! ### The words in front -/

theorem mem_keywords (d : Directive) : (d.keyword, d.phrase) ∈ keywords := by
  cases d with
  | deleteType kind name => cases kind <;> simp [keyword, phrase, keywords]
  | _ => simp [keyword, phrase, keywords]

/-- Only the deletion of a node has words that begin those of an earlier form. -/
theorem keywords_apart : keywords.Pairwise fun k l =>
    (¬k.2.toList <+: l.2.toList ∧ ¬l.2.toList <+: k.2.toList) ∨ (k.2 = "delete node type " ∧ l.1 = .deleteNode) := by
  decide +kernel

theorem keyword?_append {k : Keyword} {words rest : String} (h : (k, words) ∈ keywords)
    (hnode : k = .deleteNode → Text.behind? "delete node type " (words ++ rest) = none) :
    keyword? (words ++ rest) = some (k, rest) := by
  obtain ⟨before, after, hsplit⟩ := List.append_of_mem h
  have hapart := keywords_apart
  rw [hsplit, List.pairwise_append] at hapart
  have hbefore : before.findSome? (fun l => (Text.behind? l.2 (words ++ rest)).map (l.1, ·)) = none := by
    refine List.findSome?_eq_none_iff.mpr fun l hl => ?_
    rcases hapart.2.2 l hl (k, words) List.mem_cons_self with ⟨hlk, hkl⟩ | ⟨hl₁, hk⟩
    · rw [behind?_eq_none hlk hkl, Option.map_none]
    · rw [hl₁, hnode hk, Option.map_none]
  rw [keyword?, hsplit, List.findSome?_append, hbefore, Option.none_or, List.findSome?_cons, behind?_append]
  rfl

theorem IsNodeName.behind? (h : IsNodeName s) : Text.behind? "type " s = none := by
  cases htype : Text.behind? "type " s with
  | none => rfl
  | some rest =>
    obtain ⟨cs, hcs, -⟩ := Option.map_eq_some_iff.mp htype
    have hwords : Chars.words s.toList = ['t', 'y', 'p', 'e'] :: Chars.words cs := by
      rw [Chars.behind?_eq_some hcs]
      exact Chars.words_append_cons ['t', 'y', 'p', 'e'] cs (c := ' ') (by decide)
    refine absurd ?_ h.noType
    rw [hwords]
    rfl

theorem keyword?_written (h : d.Named) : keyword? (d.phrase ++ d.arguments) = some (d.keyword, d.arguments) := by
  refine keyword?_append (mem_keywords d) fun hnode => ?_
  cases d with
  | deleteNode name =>
    have htype : Text.behind? ("delete node " ++ "type ") ("delete node " ++ name) = none := by
      rw [behind?_append_append]
      exact IsNodeName.behind? h
    exact htype
  | deleteType kind name => cases kind <;> cases hnode
  | _ => cases hnode

/-! ### Paths -/

theorem IsName.getLast (h : IsName s) (front : String) :
    ∀ c ∈ (front ++ s).toList.getLast?, Chars.isBlank c = false := by
  have hne : s.toList ≠ [] := fun hnil => h.nonempty (String.toList_eq_nil_iff.mp hnil)
  obtain ⟨c, hc⟩ : ∃ c, s.toList.getLast? = some c := ⟨_, List.getLast?_eq_some_getLast hne⟩
  rw [String.toList_append, List.getLast?_append, hc, Option.some_or, ← hc]
  exact Chars.getLast_of_trim (trim_eq_iff.mp h.trimmed)

theorem IsName.not_mem (h : IsName s) {c : Char} (hc : c = '>' ∨ c = ':' ∨ c = '=') : c ∉ s.toList := by
  intro hin
  obtain ⟨hpath, hcolon, harrow⟩ := h.unmarked c hin
  rcases hc with rfl | rfl | rfl <;> contradiction

theorem not_mem_of_isBlank (h : isBlank s = true) {c : Char} (hc : Chars.isBlank c = false) : c ∉ s.toList := by
  intro hin
  rw [isBlank, List.all_eq_true] at h
  rw [h c hin] at hc
  cases hc

theorem parse_path (h : IsPath p) (ha : isBlank a = true) (hb : isBlank b = true) :
    MorphPath.parse (a ++ p.written ++ b) = .ok p := by
  have hcut : a ++ p.written ++ b = (a ++ p.node ++ " ") ++ ">" ++ (" " ++ p.morph ++ b) := by
    rw [MorphPath.written, show " > " = " " ++ ">" ++ " " from rfl]
    simp only [String.append_assoc]
  have hfree : '>' ∉ (a ++ p.node ++ " ").toList := by
    simp only [String.toList_append, List.mem_append, not_or]
    exact ⟨⟨not_mem_of_isBlank ha (by decide), h.node.not_mem (.inl rfl)⟩, by decide⟩
  have hnode : trim (a ++ p.node ++ " ") = p.node := trim_surrounded ha rfl h.node.trimmed
  have hmorph : trim (" " ++ p.morph ++ b) = p.morph := trim_surrounded rfl hb h.morph.trimmed
  rw [MorphPath.parse, hcut, splitFirst_append (c := '>') rfl hfree]
  simp only [hnode, hmorph]

theorem parse_path_alone (h : IsPath p) : MorphPath.parse p.written = .ok p := by
  simpa using parse_path (a := "") (b := "") h rfl rfl

theorem IsPath.not_mem (h : IsPath p) {c : Char} (hc : c = ':' ∨ c = '=') : c ∉ p.written.toList := by
  have hmark : c ∉ " > ".toList := by
    rcases hc with rfl | rfl <;> decide
  simp only [MorphPath.written, String.toList_append, List.mem_append, not_or]
  exact ⟨⟨h.node.not_mem (.inr hc), hmark⟩, h.morph.not_mem (.inr hc)⟩

theorem IsPath.noFrom (h : IsPath p) : "from".toList ∉ Chars.words p.written.toList := by
  have hwritten : p.written.toList = p.node.toList ++ ' ' :: ('>' :: ' ' :: p.morph.toList) := by
    simp [MorphPath.written]
  have hwords : Chars.words p.written.toList = Chars.words p.node.toList ++ (['>'] :: Chars.words p.morph.toList) := by
    rw [hwritten, Chars.words_append_cons _ _ (by decide)]
    exact congrArg _ (Chars.words_append_cons ['>'] _ (by decide))
  rw [hwords, List.mem_append, List.mem_cons]
  rintro (hin | heq | hin)
  · exact h.node.noFrom hin
  · revert heq
    decide
  · exact h.morph.noFrom hin

/-! ### Behind the words -/

theorem isWord_from : Chars.IsWord "from".toList := ⟨by decide, List.forall_iff_forall_mem.mp (by decide)⟩

theorem parseAdd_written (h : IsPath p) {seed : Option String} (hseed : ∀ s ∈ seed, IsName s) :
    parseAdd (addMorph p seed).arguments = .ok (addMorph p seed) := by
  cases seed with
  | none =>
    have hsplit : splitFirst " from " p.written = none := by
      have hnone : Chars.splitFirst " from ".toList p.written.toList = none :=
        Chars.splitFirst_word_eq_none isWord_from h.noFrom
      rw [splitFirst, hnone, Option.map_none]
    rw [arguments, parseAdd, hsplit]
    simp only [parse_path_alone h, Except.map]
  | some seed =>
    have hsplit : splitFirst " from " (p.written ++ " from " ++ seed) = some (p.written, seed) := by
      refine splitFirst_of_toList ?_
      rw [String.toList_append, String.toList_append]
      exact Chars.splitFirst_word isWord_from h.noFrom (h.morph.getLast (p.node ++ " > ")) seed.toList
    rw [arguments, parseAdd, hsplit]
    simp only [parse_path_alone h, Except.map, (hseed seed rfl).trimmed]

theorem parseUnlist_written (h : IsPath p) (hname : IsName name) :
    parseUnlist (unlist p name).arguments = .ok (unlist p name) := by
  have hcut : (unlist p name).arguments = (p.written ++ " ") ++ ":" ++ (" " ++ name) := by
    rw [arguments, show " : " = " " ++ ":" ++ " " from rfl]
    simp only [String.append_assoc]
  have hfree : ':' ∉ (p.written ++ " ").toList := by
    rw [String.toList_append, List.mem_append, not_or]
    exact ⟨h.not_mem (.inl rfl), by decide⟩
  have hpath : MorphPath.parse (p.written ++ " ") = .ok p := by simpa using parse_path (a := "") (b := " ") h rfl rfl
  have htrim : trim (" " ++ name) = name := by simpa using trim_surrounded (a := " ") (b := "") rfl rfl hname.trimmed
  rw [parseUnlist, hcut, splitFirst_append (c := ':') rfl hfree]
  simp only [hpath, htrim, Except.map]

/-- The mark of a path stands in the arrow too, so it is the first character of the arrow that tells them apart. -/
theorem parseTransition_written (h : IsName name) (hinput : IsPath input) (houtput : IsPath output) :
    parseTransition (transition name input output).arguments = .ok (transition name input output) := by
  have hcut : (transition name input output).arguments =
      name ++ ":" ++ ((" " ++ input.written ++ " ") ++ "=>" ++ (" " ++ output.written)) := by
    rw [arguments, show ": " = ":" ++ " " from rfl, show " => " = " " ++ "=>" ++ " " from rfl]
    simp only [String.append_assoc]
  have hfree : '=' ∉ (" " ++ input.written ++ " ").toList := by
    simp only [String.toList_append, List.mem_append, not_or]
    exact ⟨⟨by decide, hinput.not_mem (.inr rfl)⟩, by decide⟩
  have hout : MorphPath.parse (" " ++ output.written) = .ok output := by
    simpa using parse_path (a := " ") (b := "") houtput rfl rfl
  rw [parseTransition, hcut, splitFirst_append (c := ':') rfl (h.not_mem (.inr (.inl rfl)))]
  dsimp only
  rw [splitFirst_append (c := '=') rfl hfree]
  simp only [parse_path hinput (a := " ") (b := " ") rfl rfl, hout, h.trimmed]
  rfl

/-! ### The line -/

/-- A directive ends in a name. -/
theorem exists_isName (h : d.Named) : ∃ front name, d.arguments = front ++ name ∧ IsName name := by
  cases d with
  | addMorph place seed =>
    cases seed with
    | none => exact ⟨_, _, rfl, h.1.morph⟩
    | some seed => exact ⟨_, _, rfl, h.2 seed rfl⟩
  | switch place => exact ⟨_, _, rfl, h.morph⟩
  | unlist place edge => exact ⟨_, _, rfl, h.2⟩
  | deleteMorph place => exact ⟨_, _, rfl, h.morph⟩
  | deleteNode name => exact ⟨"", name, String.empty_append.symm, h.toIsName⟩
  | deleteType kind name => exact ⟨"", name, String.empty_append.symm, h⟩
  | transition name input output =>
    refine ⟨name ++ ": " ++ input.written ++ " => " ++ (output.node ++ " > "), _, ?_, h.2.2.morph⟩
    rw [arguments, MorphPath.written, MorphPath.written]
    simp only [String.append_assoc]

theorem trim_written (h : d.Named) : trim d.written = d.written := by
  obtain ⟨front, name, harguments, hname⟩ := exists_isName h
  rw [trim_eq_iff]
  refine Chars.trim_of_ends ?_ ?_
  · rw [written, String.append_assoc, String.toList_append]
    rintro c ⟨⟩
    decide
  · rw [written, harguments, ← String.append_assoc]
    exact hname.getLast _

/-- A directive that is written, with blanks around it or without, is read as itself. -/
theorem parse_written (d : Directive) (h : d.Named) (a b : String) (ha : isBlank a = true) (hb : isBlank b = true) :
    parse (a ++ d.written ++ b) = .ok d := by
  have hbody : Text.behind? "@" (trim (a ++ d.written ++ b)) = some (d.phrase ++ d.arguments) := by
    rw [trim_surrounded ha hb (trim_written h), written, String.append_assoc, behind?_append]
  have hkeyword := keyword?_written h
  unfold parse
  simp only [hbody, hkeyword]
  cases d with
  | addMorph place seed => exact parseAdd_written h.1 h.2
  | switch place => exact congrArg (Except.map switch) (parse_path_alone h)
  | unlist place edge => exact parseUnlist_written h.1 h.2
  | deleteMorph place => exact congrArg (Except.map deleteMorph) (parse_path_alone h)
  | deleteNode name => exact congrArg (Except.ok ∘ deleteNode) h.trimmed
  | deleteType kind name =>
    have hname : trim name = name := h.trimmed
    cases kind <;> simp only [keyword, arguments, hname]
  | transition name input output => exact parseTransition_written h.1 h.2.1 h.2.2

/-- Neither a mark of another form in a name, nor a word that only begins as one of them, leads astray. -/
theorem parse_thawing :
    let d := transition "@switch from1" ⟨"types of water", "delete node"⟩ ⟨"lake **alpine**", "basic"⟩
    d.written = "@transition @switch from1: types of water > delete node => lake **alpine** > basic" ∧
      parse ("\t" ++ d.written ++ " \n") = .ok d := by
  intro d
  have hname {s : String} (hs : s ≠ "" ∧ trim s = s ∧ "from".toList ∉ Chars.words s.toList)
      (hmarks : s.toList.Forall fun c => c ≠ '>' ∧ c ≠ ':' ∧ c ≠ '=') : IsName s :=
    ⟨hs.1, hs.2.1, List.forall_iff_forall_mem.mp hmarks, hs.2.2⟩
  have hfrom : IsName "@switch from1" := hname (by decide +kernel) (by decide)
  have hin : IsPath ⟨"types of water", "delete node"⟩ :=
    ⟨⟨hname (by decide +kernel) (by decide), by decide +kernel⟩, hname (by decide +kernel) (by decide)⟩
  have hout : IsPath ⟨"lake **alpine**", "basic"⟩ :=
    ⟨⟨hname (by decide +kernel) (by decide), by decide +kernel⟩, hname (by decide +kernel) (by decide)⟩
  have hnamed : d.Named := ⟨hfrom, hin, hout⟩
  exact ⟨by decide +kernel, parse_written d hnamed _ _ rfl rfl⟩

end Directive

end Morphology
