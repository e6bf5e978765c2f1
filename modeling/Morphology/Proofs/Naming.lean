import Mathlib.Data.List.Range
import Morphology.Graph.Naming
import Morphology.Proofs.Identity
import Morphology.Proofs.Table
import Morphology.Proofs.Text

/-! Names are looked up by what their spellings have in common. Minting always finds a free id: the numbered forms
of a stem are pairwise different, so one of them is free among one more than there are ids in use. -/

namespace Morphology

open Text in
theorem NameKey.ofName_collapse (name : String) (qualifier : Option String) :
    ofName (collapse name) (collapse? qualifier) = ofName name qualifier := by
  simp only [ofName, fold_collapse, NameKey.mk.injEq, true_and]
  cases qualifier with
  | none => rfl
  | some q =>
    by_cases hq : collapse q = ""
    · have hfold : fold q = "" := by
        rw [fold, hq]
        decide
      simp [collapse?, hq, hfold, Option.filter]
    · simp [collapse?, hq, Option.filter, fold_collapse]

namespace NameBook

theorem numbered_inj {stem : String} {m n : Nat} (h : numbered stem m = numbered stem n) : m = n := by
  have ht : (stem ++ "~").toList ++ (Text.ofNat m).toList = (stem ++ "~").toList ++ (Text.ofNat n).toList := by
    simpa [numbered] using congrArg (fun id : NodeId => id.text.toList) h
  exact Text.ofNat_inj (String.toList_inj.mp (List.append_cancel_left ht))

theorem firstFree_eq_none {taken : KeySet NodeId} {stem : String} {tries n : Nat}
    (h : firstFree taken stem tries n = none) :
    ∀ i < tries, taken.contains (numbered stem (n + i)) = true := by
  induction tries generalizing n with
  | zero => intro i hi; omega
  | succ tries ih =>
    intro i hi
    simp only [firstFree] at h
    split at h
    · rename_i htaken
      cases i with
      | zero => exact htaken
      | succ i =>
        have := ih h i (by omega)
        rwa [Nat.add_assoc, Nat.add_comm 1 i] at this
    · cases h

theorem firstFree_eq_some {taken : KeySet NodeId} {stem : String} {tries n : Nat} {id : NodeId}
    (h : firstFree taken stem tries n = some id) :
    taken.contains id = false ∧ ∃ i < tries, id = numbered stem (n + i) ∧
      ∀ j < i, taken.contains (numbered stem (n + j)) = true := by
  induction tries generalizing n with
  | zero => cases h
  | succ tries ih =>
    simp only [firstFree] at h
    split at h
    · rename_i htaken
      obtain ⟨hfree, i, hi, hid, hbefore⟩ := ih h
      refine ⟨hfree, i + 1, by omega, by rw [hid, Nat.add_assoc, Nat.add_comm 1 i], ?_⟩
      intro j hj
      cases j with
      | zero => exact htaken
      | succ j =>
        have hj := hbefore j (by omega)
        rwa [Nat.add_assoc, Nat.add_comm 1 j] at hj
    · rename_i hfree
      cases h
      exact ⟨by simpa using hfree, 0, by omega, rfl, by simp⟩

theorem firstFree_isSome (taken : KeySet NodeId) (stem : String) (n : Nat) :
    ∃ id, firstFree taken stem (taken.size + 1) n = some id := by
  cases h : firstFree taken stem (taken.size + 1) n with
  | some id => exact ⟨id, rfl⟩
  | none =>
    let tried := (List.range (taken.size + 1)).map fun i => numbered stem (n + i)
    have hnd : tried.Nodup := by
      refine List.Nodup.map_on ?_ List.nodup_range
      intro i _ j _ hij
      have := numbered_inj hij
      omega
    have hsub : tried ⊆ taken.keys := by
      intro id hid
      obtain ⟨i, hi, rfl⟩ := List.mem_map.mp hid
      exact Table.mem_keys.mpr (firstFree_eq_none h i (List.mem_range.mp hi))
    have hlen := hnd.length_le_of_subset hsub
    simp only [tried, List.length_map, List.length_range, Table.length_keys] at hlen
    omega

/-- The plain id where it is free, otherwise the first of the numbered ones that is. -/
theorem mint_cases (book : NameBook) (name : String) (qualifier : Option String) :
    let stem := book.space.stem ++ idSlug name qualifier
    book.taken.contains (book.mint name qualifier) = false ∧
      (book.mint name qualifier = ⟨stem⟩ ∨
        book.taken.contains ⟨stem⟩ = true ∧ ∃ i ≤ book.taken.size, book.mint name qualifier = numbered stem (2 + i) ∧
          ∀ j < i, book.taken.contains (numbered stem (2 + j)) = true) := by
  intro stem
  unfold mint
  simp only
  split
  · rename_i htaken
    obtain ⟨id, hid⟩ := firstFree_isSome book.taken stem 2
    obtain ⟨hfree, i, hi, hform, hbefore⟩ := firstFree_eq_some hid
    rw [hid]
    exact ⟨hfree, .inr ⟨htaken, i, Nat.le_of_lt_succ hi, hform, hbefore⟩⟩
  · rename_i hfree
    exact ⟨by simpa using hfree, .inl rfl⟩

theorem mint_free (book : NameBook) (name : String) (qualifier : Option String) :
    book.taken.contains (book.mint name qualifier) = false :=
  (mint_cases book name qualifier).1

theorem not_mem_idSlug {c : Char} (hc : c = '/' ∨ c = ':') (name : String) (qualifier : Option String) :
    c ∉ (idSlug name qualifier).toList := by
  have hslug (s : String) : c ∉ (Text.slug s).toList := by
    have hseparator := Text.separator_not_mem_slug s
    rcases hc with rfl | rfl
    · exact hseparator.1
    · exact hseparator.2
  have hlow : c ∉ "_".toList := by
    rcases hc with rfl | rfl <;> decide
  have hgiven {s : String} (hs : c ∉ s.toList) : c ∉ (if s.isEmpty then "_" else s).toList := by
    split
    · exact hlow
    · exact hs
  unfold idSlug
  refine hgiven ?_
  split
  · rename_i q hq
    obtain ⟨q', -, rfl⟩ := Option.map_eq_some_iff.mp (Option.filter_eq_some_iff.mp hq).1
    simp only [String.toList_append, List.mem_append, not_or]
    exact ⟨⟨hslug name, hlow⟩, hslug q'⟩
  · exact hslug name

theorem idSlug_ne_empty (name : String) (qualifier : Option String) : idSlug name qualifier ≠ "" := by
  have hgiven (s : String) : (if s.isEmpty then "_" else s) ≠ "" := by
    split
    · decide
    · rename_i hne
      simpa using hne
  exact hgiven _

/-- What stands behind the namespace in an id that is minted. -/
theorem mint_rest (book : NameBook) (name : String) (qualifier : Option String) :
    ∃ rest, book.mint name qualifier = ⟨book.space.stem ++ rest⟩ ∧ rest ≠ "" ∧
      ∀ c, c = '/' ∨ c = ':' → c ∉ rest.toList := by
  have hne := idSlug_ne_empty name qualifier
  have hfree {c : Char} (hc : c = '/' ∨ c = ':') := not_mem_idSlug hc name qualifier
  rcases (mint_cases book name qualifier).2 with hm | ⟨-, i, -, hm, -⟩
  · exact ⟨idSlug name qualifier, hm, hne, fun c hc => hfree hc⟩
  · refine ⟨idSlug name qualifier ++ "~" ++ Text.ofNat (2 + i), ?_, ?_, ?_⟩
    · rw [hm]
      simp only [numbered, String.append_assoc]
    · simp [hne]
    · intro c hc
      have hnumber : c ∉ (Text.ofNat (2 + i)).toList := by
        intro hin
        have hdigit := Text.isDigit_of_mem_ofNat hin
        rcases hc with rfl | rfl <;> revert hdigit <;> decide
      have htilde : c ∉ "~".toList := by
        rcases hc with rfl | rfl <;> decide
      simp only [String.toList_append, List.mem_append, not_or]
      exact ⟨⟨hfree hc, htilde⟩, hnumber⟩

theorem mint_isRooted (book : NameBook) (name : String) (qualifier : Option String) :
    (book.mint name qualifier).IsRooted book.space := by
  obtain ⟨rest, hm, -, hfree⟩ := mint_rest book name qualifier
  exact ⟨rest, hfree ':' (.inr rfl), congrArg Id.text hm⟩

theorem mint_isPlain {book : NameBook} (h : book.space.IsPlain) (name : String)
    (qualifier : Option String) : (book.mint name qualifier).IsPlain := by
  obtain ⟨rest, hplain, hm⟩ := mint_isRooted book name qualifier
  rw [NodeId.IsPlain, hm]
  exact (((h.1.append (by decide)).append h.2).append (by decide)).append hplain

/-- An id that is minted is a free one of the namespace, without a separator of its own. It is made of the slug alone if
that is free, and has the least free number from 2 on behind it if not; there are as many tries as ids in use. -/
theorem mint_fresh (book : NameBook) (name : String) (qualifier : Option String) :
    let id := book.mint name qualifier
    let stem := book.space.stem ++ idSlug name qualifier
    book.taken.contains id = false ∧ book.space.owns id = true ∧
      (∃ rest, id.text = book.space.stem ++ rest ∧ rest ≠ "" ∧ '/' ∉ rest.toList ∧ ':' ∉ rest.toList) ∧
      if book.taken.contains ⟨stem⟩ = true then
        ∃ n, 2 ≤ n ∧ n ≤ book.taken.size + 2 ∧ id = numbered stem n ∧
          ∀ m, 2 ≤ m → m < n → book.taken.contains (numbered stem m) = true
      else id = ⟨stem⟩ := by
  intro id stem
  obtain ⟨hfree, hcases⟩ := mint_cases book name qualifier
  obtain ⟨rest, hid, hne, hclear⟩ := mint_rest book name qualifier
  have htext : id.text = book.space.stem ++ rest := congrArg Id.text hid
  have howns : book.space.owns id = true := by
    rw [Namespace.owns, htext, String.toList_append]
    exact List.isPrefixOf_iff_prefix.mpr (List.prefix_append _ _)
  refine ⟨hfree, howns, ⟨rest, htext, hne, hclear '/' (.inl rfl), hclear ':' (.inr rfl)⟩, ?_⟩
  rcases hcases with hplain | ⟨htaken, i, hi, hnumbered, hbefore⟩
  · rw [hplain] at hfree
    rw [if_neg (by rw [hfree]; exact Bool.false_ne_true)]
    exact hplain
  · rw [if_pos htaken]
    refine ⟨2 + i, Nat.le_add_right 2 i, by omega, hnumbered, fun m hm hlt => ?_⟩
    have hm' := hbefore (m - 2) (by omega)
    rwa [Nat.add_sub_cancel' hm] at hm'

section Register

variable {book : NameBook} {id k : NodeId} {name : String} {qualifier : Option String} {key : NameKey}

theorem register_unknown (id : NodeId) (h : book.byName.get? (.ofName name qualifier) = none) :
    (book.register id name qualifier).2 = { book with
      taken := KeySet.add book.taken id, byName := book.byName.insert (.ofName name qualifier) id } := by
  simp [register, Table.contains, h]

theorem taken_register : (book.register id name qualifier).2.taken = KeySet.add book.taken id := by
  unfold register
  simp only
  split <;> rfl

theorem space_register : (book.register id name qualifier).2.space = book.space := by
  unfold register
  simp only
  split <;> rfl

theorem byName_register_of_some (h : book.byName.get? key = some k) :
    (book.register id name qualifier).2.byName.get? key = some k := by
  unfold register
  simp only
  split
  · exact h
  · rename_i hfree
    rw [Table.lookup_insert, if_neg, h]
    rintro rfl
    exact hfree (Table.contains_iff.mpr ⟨k, h⟩)

theorem byName_register (h : (book.register id name qualifier).2.byName.get? key = some k) :
    book.byName.get? key = some k ∨ (k = id ∧ key = .ofName name qualifier) := by
  unfold register at h
  simp only at h
  split at h
  · exact Or.inl h
  · rw [Table.lookup_insert] at h
    split at h
    · rename_i hkey
      cases h
      exact Or.inr ⟨rfl, hkey⟩
    · exact Or.inl h

end Register

end NameBook

end Morphology
