import Morphology.Document.Render
import Morphology.Proofs.Statement.RoundTrip

/-! Headers and fences read again. A header is read back unless its name holds stars that pass for a qualifier,
a label unless it stands between angle brackets itself. -/

namespace Morphology

namespace Chars

theorem before?_append (rest ending : List Char) : before? ending (rest ++ ending) = some rest := by
  simp [before?]

theorem before?_eq_some {ending cs rest : List Char} (h : before? ending cs = some rest) : cs = rest ++ ending := by
  unfold before? at h
  split at h
  · rename_i hs
    obtain ⟨front, rfl⟩ := List.isSuffixOf_iff_suffix.mp hs
    simpa using h
  · cases h

end Chars

namespace Line

open Chars

variable {c d : Char} {cs name tail rest : List Char} {qualifier : Option (List Char)}

def starred (qualifier : List Char) : List Char := ' ' :: '*' :: '*' :: (qualifier ++ ['*', '*'])

theorem isBlank_of_isPad (h : isPad c = true) : isBlank c = true := by
  simp only [isPad, Bool.or_eq_true, beq_iff_eq] at h
  rcases h with rfl | rfl <;> decide

theorem isPad_of_not_blank (h : isBlank c = false) : isPad c = false := by
  by_contra hp
  rw [isBlank_of_isPad (by simpa using hp)] at h
  cases h

theorem headerTail?_of_not_pad (hc : isPad c = false) (rest : List Char) : headerTail? (c :: rest) = none := by
  simp [headerTail?, hc]

/-- Behind a single space only a qualifier is a proper tail. -/
theorem headerTail?_space (hd : isPad d = false) (hend : ∀ e ∈ (d :: rest).getLast?, isPad e = false) :
    headerTail? (' ' :: d :: rest) = some qualifier ↔
      ∃ q, q ≠ [] ∧ qualifier = some q ∧ ' ' :: d :: rest = starred q := by
  have hall : (' ' :: d :: rest).all isPad = false := by simp [hd]
  have hdrop : (d :: rest).dropWhile isPad = d :: rest := List.dropWhile_cons_of_neg (by simp [hd])
  simp only [headerTail?, hall, hdrop, show isPad ' ' = true from rfl, if_true, Bool.false_eq_true, if_false]
  constructor
  · intro h
    split at h
    · cases h
    · rename_i inner hinner
      have htext := behind?_eq_some hinner
      have hkeep : dropEndWhile isPad inner = inner := by
        refine dropEndWhile_of_getLast fun e he => hend e ?_
        rw [htext, List.getLast?_append, he]
        rfl
      rw [hkeep] at h
      split at h
      · cases h
      · rename_i q hq
        split at h
        · cases h
        · rename_i hne
          refine ⟨q, hne, (Option.some.inj h).symm, ?_⟩
          rw [htext, before?_eq_some hq]
          rfl
  · rintro ⟨q, hne, rfl, htext⟩
    obtain ⟨-, rfl, rfl⟩ : ' ' = ' ' ∧ d = '*' ∧ rest = '*' :: (q ++ ['*', '*']) := by simpa [starred] using htext
    have hinner : behind? ['*', '*'] ('*' :: '*' :: (q ++ ['*', '*'])) = some (q ++ ['*', '*']) :=
      behind?_append ['*', '*'] _
    have hkeep : dropEndWhile isPad (q ++ ['*', '*']) = q ++ ['*', '*'] :=
      dropEndWhile_of_getLast (by simp [isPad])
    simp [hinner, hkeep, before?_append, hne]

theorem getLast_stars (front : List Char) : ∀ c ∈ (front ++ ['*', '*']).getLast?, isPad c = false := by
  simp [isPad]

theorem headerTail?_starred {q : List Char} (h : q ≠ []) : headerTail? (starred q) = some (some q) :=
  (headerTail?_space (by decide) (getLast_stars ('*' :: '*' :: q))).mpr ⟨q, h, rfl, rfl⟩

theorem splitHeader?_eq_some (h : splitHeader? cs = some (name, qualifier)) :
    ∃ tail, cs = name ++ tail ∧ headerTail? tail = some qualifier := by
  induction cs generalizing name with
  | nil => cases h
  | cons c cs ih =>
    rw [splitHeader?] at h
    split at h
    · rename_i q htail
      cases h
      exact ⟨cs, rfl, htail⟩
    · obtain ⟨⟨name', q⟩, hs, he⟩ := Option.map_eq_some_iff.mp h
      cases he
      obtain ⟨tail, rfl, htail⟩ := ih hs
      exact ⟨tail, rfl, htail⟩

/-- A proper tail ends the name where it starts, if no name before it ends. -/
theorem splitHeader?_append (hne : name ≠ []) (htail : headerTail? tail = some qualifier)
    (hfirst : ∀ a b, a ≠ [] → b ≠ [] → name = a ++ b → headerTail? (b ++ tail) = none) :
    splitHeader? (name ++ tail) = some (name, qualifier) := by
  induction name with
  | nil => exact absurd rfl hne
  | cons c name ih =>
    cases name with
    | nil => simp [splitHeader?, htail]
    | cons d name =>
      have hnone := hfirst [c] (d :: name) (by simp) (by simp) rfl
      have ih := ih (by simp) fun a b ha hb hname => hfirst (c :: a) b (by simp) hb (by rw [hname, List.cons_append])
      rw [List.cons_append, splitHeader?, hnone]
      simp only
      rw [ih]
      rfl

/-- No name reaches over a proper tail. -/
theorem splitHeader?_of_tail (hne : name ≠ []) (htail : headerTail? tail = some qualifier) :
    ∃ c n q, splitHeader? (name ++ tail) = some (c :: n, q) ∧ name.head? = some c ∧ (c :: n).length ≤ name.length := by
  induction name with
  | nil => exact absurd rfl hne
  | cons c name ih =>
    rw [List.cons_append, splitHeader?]
    split
    · exact ⟨c, [], _, rfl, rfl, by simp⟩
    · rename_i hnone
      have hname : name ≠ [] := by
        rintro rfl
        rw [List.nil_append, htail] at hnone
        cases hnone
      obtain ⟨d, n, q, hs, -, hle⟩ := ih hname
      exact ⟨c, d :: n, q, by rw [hs]; rfl, rfl, by simpa using hle⟩

/-- The characters of a header behind its mark. -/
def headed (name : List Char) (qualifier : Option (List Char)) : List Char :=
  name ++ (qualifier.map starred).getD []

theorem getLast_headed (hname : collapse name = name) (qualifier : Option (List Char)) :
    ∀ c ∈ (headed name qualifier).getLast?, isPad c = false := by
  intro c hc
  cases qualifier with
  | none =>
    rw [show headed name none = name by simp [headed]] at hc
    exact isPad_of_not_blank (getLast_of_collapse hname c hc)
  | some q =>
    refine getLast_stars (name ++ ' ' :: '*' :: '*' :: q) c ?_
    simpa [headed, starred] using hc

/-- Where a name may end before its end: at a blank that stars follow. -/
theorem headerTail?_in_name {a b : List Char} (hname : collapse (a ++ b) = a ++ b) (hb : b ≠ [])
    (hend : ∀ c ∈ (b ++ tail).getLast?, isPad c = false) :
    headerTail? (b ++ tail) = some qualifier ↔ ∃ q, q ≠ [] ∧ qualifier = some q ∧ b ++ tail = starred q := by
  obtain ⟨c, b, rfl⟩ := List.exists_cons_of_ne_nil hb
  by_cases hc : isBlank c = true
  · obtain rfl : c = ' ' := eq_space_of_mem_collapse hc (by rw [hname]; simp)
    obtain ⟨-, d, b, rfl, hd⟩ := neighbours_of_collapse hname hc
    exact headerTail?_space (isPad_of_not_blank hd) (by simpa using hend)
  · have hnone := headerTail?_of_not_pad (isPad_of_not_blank (by simpa using hc)) (b ++ tail)
    rw [List.cons_append, hnone]
    simp only [reduceCtorEq, false_iff]
    rintro ⟨q, -, -, hstar⟩
    obtain rfl : c = ' ' := by simpa [starred] using (List.cons.inj hstar).1
    exact absurd (by decide) hc

/-- No stars within the name or behind it pass for a qualifier that starts before the name ends. -/
def Unstarred (name : List Char) (qualifier : Option (List Char)) : Prop :=
  ∀ a q, q ≠ [] → headed name qualifier = a ++ starred q → name.length ≤ a.length

theorem unstarred_none : Unstarred name none ↔ ∀ a q, q ≠ [] → name ≠ a ++ starred q := by
  have hheaded : headed name none = name := by simp [headed]
  refine forall_congr' fun a => forall_congr' fun q => imp_congr_right fun _ => ?_
  rw [hheaded]
  refine ⟨fun h hsplit => ?_, fun h hsplit => absurd hsplit h⟩
  have hle := h hsplit
  rw [hsplit, List.length_append] at hle
  simp only [starred, List.length_cons] at hle
  omega

theorem unstarred_some {q : List Char} : Unstarred name (some q) ↔ ¬[' ', '*', '*'] <:+: name := by
  have hheaded : headed name (some q) = name ++ starred q := rfl
  constructor
  · rintro h ⟨x, y, rfl⟩
    have hle := h x (y ++ ' ' :: '*' :: '*' :: q) (by simp) (by rw [hheaded]; simp [starred])
    simp only [List.length_append, List.length_cons] at hle
    omega
  · intro hnot a q' _ hsplit
    rw [hheaded] at hsplit
    rcases List.append_eq_append_iff.mp hsplit with ⟨z, rfl, -⟩ | ⟨z, rfl, hz⟩
    · simp
    · -- What the name has behind `a` cannot break off within the blank and the two stars.
      match z, hz with
      | [], _ => simp
      | [_], hz => simp [starred] at hz
      | [_, _], hz => simp [starred] at hz
      | c :: d :: e :: z, hz =>
        obtain ⟨rfl, rfl, rfl, -⟩ : ' ' = c ∧ '*' = d ∧ '*' = e ∧ _ := by simpa [starred] using hz
        exact absurd ⟨a, z, by simp⟩ hnot

theorem splitHeader?_headed (hname : collapse name = name) (hne : name ≠ []) (hqualifier : ∀ q ∈ qualifier, q ≠ [])
    (hfirst : Unstarred name qualifier) : splitHeader? (headed name qualifier) = some (name, qualifier) := by
  refine splitHeader?_append hne ?_ fun a b ha hb hsplit => ?_
  · cases qualifier with
    | none => rfl
    | some q => exact headerTail?_starred (hqualifier q rfl)
  · rw [Option.eq_none_iff_forall_ne_some]
    intro q' htail
    subst hsplit
    have hend : ∀ c ∈ (b ++ (qualifier.map starred).getD []).getLast?, isPad c = false := by
      intro c hc
      refine getLast_headed hname qualifier c ?_
      rw [headed, List.append_assoc, List.getLast?_append, hc]
      rfl
    obtain ⟨q, hq, -, hstar⟩ := (headerTail?_in_name hname hb hend).mp htail
    have hle := hfirst a q hq (by rw [headed, List.append_assoc, hstar])
    have hpos := List.length_pos_iff.mpr hb
    rw [List.length_append] at hle
    omega

/-- The header of a name, read for what it says. -/
theorem header?_headed (hname : collapse name = name) (hne : name ≠ []) (qualifier : Option (List Char)) :
    ∃ c n q, splitHeader? (headed name qualifier) = some (c :: n, q) ∧
      header? ('#' :: ' ' :: headed name qualifier) = some (collapse (c :: n), q.map collapse) := by
  obtain ⟨c, n, q, hsplit, hc, -⟩ : ∃ c n q, splitHeader? (headed name qualifier) = some (c :: n, q) ∧
      (headed name qualifier).head? = some c ∧ _ := by
    have h := @splitHeader?_of_tail (headed name qualifier) [] none (by simp [headed, hne]) rfl
    rwa [List.append_nil] at h
  have hblank : isBlank c = false := by
    refine head_of_collapse hname c ?_
    obtain ⟨d, name, rfl⟩ := List.exists_cons_of_ne_nil hne
    exact hc
  obtain ⟨body, hbody⟩ := List.head?_eq_some_iff.mp hc
  have hdrop : (headed name qualifier).dropWhile isPad = headed name qualifier := by
    rw [hbody]
    exact List.dropWhile_cons_of_neg (by simp [isPad_of_not_blank hblank])
  refine ⟨c, n, q, hsplit, ?_⟩
  simp [header?, hdrop, hsplit, collapse_ne_nil hblank, show isPad ' ' = true from rfl]

theorem header?_headed_iff (hname : collapse name = name) (hne : name ≠ [])
    (hqualifier : ∀ q ∈ qualifier, collapse q = q) :
    header? ('#' :: ' ' :: headed name qualifier) = some (name, qualifier) ↔
      (∀ q ∈ qualifier, q ≠ []) ∧ Unstarred name qualifier := by
  obtain ⟨c, n, q, hsplit, hheader⟩ := header?_headed hname hne qualifier
  rw [hheader]
  constructor
  · intro h
    obtain ⟨hn, hq⟩ := Prod.mk.inj (Option.some.inj h)
    have hle : name.length ≤ (c :: n).length := by
      rw [← hn]
      exact length_collapse_le _
    refine ⟨?_, fun a q' hq' htail => ?_⟩
    · rintro _ hq' rfl
      obtain rfl := Option.mem_def.mp hq'
      obtain ⟨tail, htail, hproper⟩ := splitHeader?_eq_some hsplit
      have hshort : tail <:+ starred [] := by
        rcases List.append_eq_append_iff.mp htail with ⟨z, -, hz⟩ | ⟨z, hz, rfl⟩
        · exact ⟨z, hz.symm⟩
        · obtain rfl : z = [] := by
            have := congrArg List.length hz
            rw [List.length_append] at this
            exact List.length_eq_zero_iff.mp (by omega)
          exact List.suffix_rfl
      have hnone : ∀ tail ∈ (starred []).tails, headerTail? tail = none ∨ headerTail? tail = some none := by decide
      rcases hnone tail ((List.mem_tails _ _).mpr hshort) with h | h <;> rw [h] at hproper <;> cases hproper
      cases hq
    · have ha : a ≠ [] := by
        rintro rfl
        obtain ⟨d, name, rfl⟩ := List.exists_cons_of_ne_nil hne
        have hd := head_of_collapse hname d rfl
        obtain rfl : d = ' ' := (List.cons.inj htail).1
        exact absurd hd (by decide)
      rw [htail] at hsplit
      obtain ⟨c', n', q'', hsplit', -, hle'⟩ := splitHeader?_of_tail ha (headerTail?_starred hq')
      rw [hsplit] at hsplit'
      cases hsplit'
      exact hle.trans hle'
  · rintro ⟨hq, hfirst⟩
    rw [splitHeader?_headed hname hne hq hfirst] at hsplit
    obtain ⟨rfl, rfl⟩ := Prod.mk.inj (Option.some.inj hsplit)
    rw [hname]
    cases qualifier with
    | none => rfl
    | some q => rw [Option.map_some, hqualifier q rfl]

theorem not_header (hc : c ≠ '#') (cs : List Char) : header? (c :: cs) = none := by
  unfold header?
  split
  · rename_i heq
    exact absurd (List.cons.inj heq).1 hc
  · rfl

theorem not_closing (hc : c ≠ ':') (cs : List Char) : isFenceClosing (c :: cs) = false := by
  simp [isFenceClosing, behind?, Ne.symm hc]

/-! ## Labels -/

def bracketed (label : List Char) : List Char := '<' :: (label ++ ['>'])

theorem unbracket_bracketed (label : List Char) : unbracket (bracketed label) = label := by
  have hbehind : behind? ['<'] (bracketed label) = some (label ++ ['>']) := behind?_append ['<'] _
  simp [unbracket, hbehind, before?_append]

theorem unbracket_of_not_bracketed {label : List Char} (h : ∀ inner, label ≠ bracketed inner) :
    unbracket label = label := by
  unfold unbracket
  cases hb : (behind? ['<'] label).bind (before? ['>']) with
  | none => rfl
  | some inner =>
    obtain ⟨rest, hrest, hinner⟩ := Option.bind_eq_some_iff.mp hb
    refine absurd ?_ (h inner)
    rw [behind?_eq_some hrest, before?_eq_some hinner]
    rfl

theorem fenceOpening?_label {label : List Char} (hlabel : collapse label = label) :
    fenceOpening? (':' :: ':' :: ':' :: 'c' :: 'n' :: 'l' :: ' ' :: label) =
      some (if collapse (unbracket label) = [] then none else some (collapse (unbracket label))) := by
  have htrim : trim (' ' :: label) = label := by
    have hstart : trimStart (' ' :: label) = trimStart label := List.dropWhile_cons_of_pos (by decide)
    rw [trim, hstart]
    exact trim_of_collapse hlabel
  have hmark : behind? [':', ':', ':'] (':' :: ':' :: ':' :: 'c' :: 'n' :: 'l' :: ' ' :: label) =
      some ('c' :: 'n' :: 'l' :: ' ' :: label) := behind?_append [':', ':', ':'] _
  have hword : behind? ['c', 'n', 'l'] ('c' :: 'n' :: 'l' :: ' ' :: label) = some (' ' :: label) :=
    behind?_append ['c', 'n', 'l'] _
  simp [fenceOpening?, hmark, hword, htrim, isPad]

theorem fenceOpening?_label_iff {label : List Char} (hlabel : collapse label = label) (hne : label ≠ []) :
    fenceOpening? (':' :: ':' :: ':' :: 'c' :: 'n' :: 'l' :: ' ' :: label) = some (some label) ↔
      ∀ inner, label ≠ bracketed inner := by
  rw [fenceOpening?_label hlabel]
  constructor
  · rintro h inner rfl
    rw [unbracket_bracketed] at h
    have hle := length_collapse_le inner
    split at h
    · cases h
    · rw [Option.some.inj (Option.some.inj h)] at hle
      simp only [bracketed, List.length_cons, List.length_append, List.length_nil] at hle
      omega
  · intro h
    rw [unbracket_of_not_bracketed h, hlabel, if_neg hne]

end Line

end Morphology
