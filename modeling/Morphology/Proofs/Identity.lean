import Morphology.Entity

/-! Composed ids tell what they are composed of: `MorphId.ofNode_inj`, `RelationId.compose_inj` and
`AttributeId.compose_inj`. Two colons separate the parts of the id of an edge, so there is doubt about the nodes only
where the id of one goes on behind the other one with a colon; and then it has more colons. The names are free. -/

namespace Morphology

/-- Without the character that separates the parts of a composed id. -/
def Text.IsPlain (s : String) : Prop := ':' ∉ s.toList

instance (s : String) : Decidable (Text.IsPlain s) :=
  inferInstanceAs (Decidable (':' ∉ s.toList))

def NodeId.IsPlain (id : NodeId) : Prop := Text.IsPlain id.text

instance (id : NodeId) : Decidable id.IsPlain :=
  inferInstanceAs (Decidable (Text.IsPlain id.text))

def Namespace.IsPlain (space : Namespace) : Prop :=
  Text.IsPlain space.user ∧ Text.IsPlain space.graph

instance (space : Namespace) : Decidable space.IsPlain :=
  inferInstanceAs (Decidable (_ ∧ _))

namespace Text

theorem IsPlain.append {s t : String} (hs : IsPlain s) (ht : IsPlain t) : IsPlain (s ++ t) := by
  simp only [IsPlain, String.toList_append, List.mem_append, not_or] at *
  exact ⟨hs, ht⟩

theorem isDigit_of_mem_ofNat {n : Nat} {c : Char} (h : c ∈ (ofNat n).toList) : c.isDigit = true := by
  rw [ofNat, String.toList_ofList] at h
  exact Nat.isDigit_of_mem_toDigits (by decide) (by decide) h

theorem isPlain_ofNat (n : Nat) : IsPlain (ofNat n) := by
  intro h
  have hdigit := isDigit_of_mem_ofNat h
  revert hdigit
  decide

theorem ofNat_inj {m n : Nat} (h : ofNat m = ofNat n) : m = n := by
  have hd : Nat.toDigits 10 m = Nat.toDigits 10 n := by
    simpa only [ofNat, String.toList_ofList] using congrArg String.toList h
  simpa only [Nat.ofDigitChars_ten_toDigits] using congrArg (Nat.ofDigitChars 10 · 0) hd

end Text

namespace Chars

theorem eq_of_append_colon {a b x y : List Char} (ha : ':' ∉ a) (hb : ':' ∉ b)
    (h : a ++ ':' :: x = b ++ ':' :: y) : a = b ∧ x = y := by
  induction a generalizing b with
  | nil =>
    cases b with
    | nil => exact ⟨rfl, by simpa using h⟩
    | cons d b =>
      simp only [List.nil_append, List.cons_append, List.cons.injEq] at h
      exact absurd (h.1 ▸ List.mem_cons_self) hb
  | cons c a ih =>
    cases b with
    | nil =>
      simp only [List.nil_append, List.cons_append, List.cons.injEq] at h
      exact absurd (h.1 ▸ List.mem_cons_self) ha
    | cons d b =>
      simp only [List.cons_append, List.cons.injEq] at h
      obtain ⟨hab, hxy⟩ := ih (List.not_mem_of_not_mem_cons ha) (List.not_mem_of_not_mem_cons hb) h.2
      exact ⟨by rw [h.1, hab], hxy⟩

theorem eq_of_colon_append {a b x y : List Char} (hx : ':' ∉ x) (hy : ':' ∉ y)
    (h : a ++ ':' :: x = b ++ ':' :: y) : a = b ∧ x = y := by
  have hr : x.reverse ++ ':' :: a.reverse = y.reverse ++ ':' :: b.reverse := by
    simpa using congrArg List.reverse h
  obtain ⟨hxy, hab⟩ := eq_of_append_colon (by simpa using hx) (by simpa using hy) hr
  exact ⟨List.reverse_inj.mp hab, List.reverse_inj.mp hxy⟩

end Chars

theorem Id.eq_of_toList {kind : EntityKind} {a b : Id kind} (h : a.text.toList = b.text.toList) :
    a = b :=
  Id.ext (String.toList_inj.mp h)

/-- The number of a morph has no colon, so whatever stands before the last one is the id of the node. -/
theorem MorphId.ofNode_inj {m n : NodeId} {i j : Nat} (h : ofNode m i = ofNode n j) : m = n ∧ i = j := by
  have ht : (m.text.toList ++ "::morph:".toList) ++ ':' :: (Text.ofNat i).toList =
      (n.text.toList ++ "::morph:".toList) ++ ':' :: (Text.ofNat j).toList := by
    simpa [ofNode] using congrArg (fun id : MorphId => id.text.toList) h
  obtain ⟨hmn, hij⟩ := Chars.eq_of_colon_append (Text.isPlain_ofNat i) (Text.isPlain_ofNat j) ht
  exact ⟨Id.eq_of_toList (List.append_cancel_right hmn), Text.ofNat_inj (String.toList_inj.mp hij)⟩

/-! ## Nodes in the id of an edge -/

namespace Chars

variable {a b x y : List Char}

theorem append_separator_cases (h : a ++ ':' :: ':' :: x = b ++ ':' :: ':' :: y) :
    a = b ∨ a ++ [':', ':'] <+: b ++ [':'] ∨ b ++ [':', ':'] <+: a ++ [':'] := by
  have ha : a ++ [':', ':'] <+: a ++ ':' :: ':' :: x := ⟨x, by simp⟩
  have ha' : a ++ [':'] <+: a ++ ':' :: ':' :: x := ⟨':' :: x, by simp⟩
  have hb : b ++ [':', ':'] <+: a ++ ':' :: ':' :: x := ⟨y, by simp [h]⟩
  have hb' : b ++ [':'] <+: a ++ ':' :: ':' :: x := ⟨':' :: y, by simp [h]⟩
  rcases Nat.lt_trichotomy a.length b.length with hlt | heq | hgt
  · exact Or.inr (Or.inl (List.prefix_of_prefix_length_le ha hb' (by simp; omega)))
  · exact Or.inl (List.append_inj_left h heq)
  · exact Or.inr (Or.inr (List.prefix_of_prefix_length_le hb ha' (by simp; omega)))

theorem separator_append_cases (h : x ++ ':' :: ':' :: a = y ++ ':' :: ':' :: b) :
    a = b ∨ ':' :: ':' :: a <:+ ':' :: b ∨ ':' :: ':' :: b <:+ ':' :: a := by
  have hr : a.reverse ++ ':' :: ':' :: x.reverse = b.reverse ++ ':' :: ':' :: y.reverse := by
    simpa using congrArg List.reverse h
  rcases append_separator_cases hr with hab | hpre | hpre
  · exact Or.inl (List.reverse_inj.mp hab)
  · exact Or.inr (Or.inl (List.reverse_prefix.mp (by simpa using hpre)))
  · exact Or.inr (Or.inr (List.reverse_prefix.mp (by simpa using hpre)))

end Chars

namespace NodeId

/-- The id `b` begins with `a` and a separator, half of which may be the one behind `b`. -/
def Opens (a b : NodeId) : Prop := a.text.toList ++ [':', ':'] <+: b.text.toList ++ [':']

/-- The id `b` ends with a separator and `a`; half of the separator may be the one in front of `b`. -/
def Closes (a b : NodeId) : Prop := ':' :: ':' :: a.text.toList <:+ ':' :: b.text.toList

def ClashesBefore (a b : NodeId) : Prop := a.Opens b ∨ b.Opens a

def ClashesBehind (a b : NodeId) : Prop := a.Closes b ∨ b.Closes a

/-- How many colons an id has in it. -/
def colons (id : NodeId) : Nat := id.text.toList.count ':'

variable {a b : NodeId}

theorem IsPlain.colons (h : a.IsPlain) : a.colons = 0 := List.count_eq_zero.mpr h

theorem Opens.colons_lt (h : a.Opens b) : a.colons < b.colons := by
  have hle := h.sublist.count_le ':'
  simp only [List.count_append, List.count_cons_self, List.count_nil] at hle
  exact Nat.lt_of_succ_le (Nat.le_of_succ_le_succ hle)

theorem Closes.colons_lt (h : a.Closes b) : a.colons < b.colons := by
  have hle := h.sublist.count_le ':'
  simp only [List.count_cons_self] at hle
  exact Nat.lt_of_succ_le (Nat.le_of_succ_le_succ hle)

theorem not_clashesBefore (h : a.colons = b.colons) : ¬a.ClashesBefore b := by
  rintro (hab | hba)
  · exact Nat.ne_of_lt hab.colons_lt h
  · exact Nat.ne_of_gt hba.colons_lt h

theorem not_clashesBehind (h : a.colons = b.colons) : ¬a.ClashesBehind b := by
  rintro (hab | hba)
  · exact Nat.ne_of_lt hab.colons_lt h
  · exact Nat.ne_of_gt hba.colons_lt h

/-- A name makes up for what `b` has more in front of its own one. -/
theorem Opens.exists_name (h : a.Opens b) : ∃ s, a.text ++ "::" ++ s = b.text ++ "::" := by
  obtain ⟨more, hmore⟩ := h
  refine ⟨String.ofList more ++ ":", String.toList_inj.mp ?_⟩
  simpa using congrArg (· ++ [':']) hmore

theorem Closes.exists_name (h : a.Closes b) : ∃ s, s ++ "::" ++ a.text = "::" ++ b.text := by
  obtain ⟨more, hmore⟩ := h
  refine ⟨":" ++ String.ofList more, String.toList_inj.mp ?_⟩
  simpa using congrArg (':' :: ·) hmore

theorem exists_names_before (h : a = b ∨ a.ClashesBefore b) : ∃ s t, a.text ++ "::" ++ s = b.text ++ "::" ++ t := by
  rcases h with rfl | hab | hba
  · exact ⟨"", "", rfl⟩
  · obtain ⟨s, hs⟩ := hab.exists_name
    exact ⟨s, "", by rw [hs, String.append_empty]⟩
  · obtain ⟨t, ht⟩ := hba.exists_name
    exact ⟨"", t, by rw [ht, String.append_empty]⟩

theorem exists_names_behind (h : a = b ∨ a.ClashesBehind b) : ∃ s t, s ++ "::" ++ a.text = t ++ "::" ++ b.text := by
  rcases h with rfl | hab | hba
  · exact ⟨"", "", rfl⟩
  · obtain ⟨s, hs⟩ := hab.exists_name
    exact ⟨s, "", by rw [hs, String.empty_append]⟩
  · obtain ⟨t, ht⟩ := hba.exists_name
    exact ⟨"", t, by rw [ht, String.empty_append]⟩

end NodeId

namespace RelationId

variable {a b c d : NodeId} {s t : String}

/-- Relations with one id are about the same, unless there is doubt about their ends. -/
theorem ends_of_compose (h : compose a s b = compose c t d) :
    (a = c ∨ a.ClashesBefore c) ∧ (b = d ∨ b.ClashesBehind d) ∧ (a = c → b = d → s = t) := by
  have ht : a.text.toList ++ ':' :: ':' :: (s.toList ++ ':' :: ':' :: b.text.toList) =
      c.text.toList ++ ':' :: ':' :: (t.toList ++ ':' :: ':' :: d.text.toList) := by
    simpa [compose] using congrArg (fun id : RelationId => id.text.toList) h
  have ht' : (a.text.toList ++ ':' :: ':' :: s.toList) ++ ':' :: ':' :: b.text.toList =
      (c.text.toList ++ ':' :: ':' :: t.toList) ++ ':' :: ':' :: d.text.toList := by
    simpa using ht
  refine ⟨(Chars.append_separator_cases ht).imp_left Id.eq_of_toList,
    (Chars.separator_append_cases ht').imp_left Id.eq_of_toList, ?_⟩
  rintro rfl rfl
  exact String.toList_inj.mp (by simpa using ht)

theorem compose_inj (hac : a.colons = c.colons) (hbd : b.colons = d.colons) (h : compose a s b = compose c t d) :
    a = c ∧ s = t ∧ b = d := by
  obtain ⟨hsource, htarget, hname⟩ := ends_of_compose h
  have ha := hsource.resolve_right (NodeId.not_clashesBefore hac)
  have hb := htarget.resolve_right (NodeId.not_clashesBehind hbd)
  exact ⟨ha, hname ha hb, hb⟩

/-- Where there is doubt about both ends or one of them, names can be found that leave it. -/
theorem exists_compose (hac : a = c ∨ a.ClashesBefore c) (hbd : b = d ∨ b.ClashesBehind d) :
    ∃ s t, compose a s b = compose c t d := by
  obtain ⟨s, t, hst⟩ := NodeId.exists_names_before hac
  obtain ⟨s', t', hst'⟩ := NodeId.exists_names_behind hbd
  refine ⟨s ++ s', t ++ t', Id.ext ?_⟩
  calc a.text ++ "::" ++ (s ++ s') ++ "::" ++ b.text
      = (a.text ++ "::" ++ s) ++ (s' ++ "::" ++ b.text) := by simp only [String.append_assoc]
    _ = (c.text ++ "::" ++ t) ++ (t' ++ "::" ++ d.text) := by rw [hst, hst']
    _ = c.text ++ "::" ++ (t ++ t') ++ "::" ++ d.text := by simp only [String.append_assoc]

end RelationId

namespace AttributeId

variable {a b : NodeId} {s t : String}

theorem ends_of_compose (h : compose a s = compose b t) : (a = b ∨ a.ClashesBefore b) ∧ (a = b → s = t) := by
  have ht : a.text.toList ++ ':' :: ':' :: s.toList = b.text.toList ++ ':' :: ':' :: t.toList := by
    simpa [compose] using congrArg (fun id : AttributeId => id.text.toList) h
  refine ⟨(Chars.append_separator_cases ht).imp_left Id.eq_of_toList, ?_⟩
  rintro rfl
  exact String.toList_inj.mp (by simpa using ht)

theorem compose_inj (hab : a.colons = b.colons) (h : compose a s = compose b t) : a = b ∧ s = t := by
  obtain ⟨howner, hname⟩ := ends_of_compose h
  have ha := howner.resolve_right (NodeId.not_clashesBefore hab)
  exact ⟨ha, hname ha⟩

theorem exists_compose (hab : a = b ∨ a.ClashesBefore b) : ∃ s t, compose a s = compose b t := by
  obtain ⟨s, t, hst⟩ := NodeId.exists_names_before hab
  exact ⟨s, t, Id.ext hst⟩

end AttributeId

/-! A namespace may have colons in it, which then stand in front of every id made there alike. -/

def NodeId.IsRooted (space : Namespace) (id : NodeId) : Prop :=
  ∃ rest, Text.IsPlain rest ∧ id.text = space.stem ++ rest

theorem NodeId.IsRooted.colons {space : Namespace} {id : NodeId} (h : id.IsRooted space) :
    id.colons = space.stem.toList.count ':' := by
  obtain ⟨rest, hrest, htext⟩ := h
  rw [NodeId.colons, htext, String.toList_append, List.count_append, List.count_eq_zero.mpr hrest, Nat.add_zero]

section Rooted

variable {space : Namespace} {m n : NodeId} (hm : m.IsRooted space) (hn : n.IsRooted space)

include hm hn

/-- The target is whatever stands behind the name, as long as this has no colon. -/
theorem RelationId.compose_inj_of_rooted {s t : String} {a b : NodeId} (hs : Text.IsPlain s) (ht : Text.IsPlain t)
    (h : compose m s a = compose n t b) : m = n ∧ s = t ∧ a = b := by
  obtain ⟨r, hr, hmr⟩ := hm
  obtain ⟨r', hr', hnr⟩ := hn
  have hchars : r.toList ++ ':' :: (':' :: (s.toList ++ ':' :: (':' :: a.text.toList))) =
      r'.toList ++ ':' :: (':' :: (t.toList ++ ':' :: (':' :: b.text.toList))) := by
    simpa [compose, hmr, hnr] using congrArg (fun id : RelationId => id.text.toList) h
  obtain ⟨heq, hrest⟩ := Chars.eq_of_append_colon hr hr' hchars
  obtain ⟨hst, hab⟩ := Chars.eq_of_append_colon hs ht (List.tail_eq_of_cons_eq hrest)
  cases String.toList_inj.mp heq
  exact ⟨Id.ext (hmr.trans hnr.symm), String.toList_inj.mp hst, Id.eq_of_toList (List.tail_eq_of_cons_eq hab)⟩

theorem AttributeId.compose_inj_of_rooted {s t : String} (h : compose m s = compose n t) : m = n ∧ s = t :=
  compose_inj (hm.colons.trans hn.colons.symm) h

end Rooted

end Morphology
