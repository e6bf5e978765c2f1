import Morphology.Proofs.Number.Rounding
import Morphology.Proofs.Text
import Morphology.Schema.Basic

/-! Which integers an attribute of numbers allows. Values are compared as binary64 numbers, integers too, so that a
value goes through which is rounded to the same number as one of those that are allowed. Below `2 ^ 53` that is the
same integer, and elsewhere it is never far away. -/

namespace Morphology

open Chars Binary64

namespace Chars

/-- Decimal digits, one or more, of the number `m`. -/
def IsNumeral (digits : List Char) (m : Nat) : Prop :=
  digits ≠ [] ∧ (∀ c ∈ digits, '0' ≤ c ∧ c ≤ '9') ∧ Nat.ofDigitChars 10 digits 0 = m

instance (digits : List Char) (m : Nat) : Decidable (IsNumeral digits m) :=
  have : Decidable (∀ c ∈ digits, '0' ≤ c ∧ c ≤ '9') := List.decidableBAll _ _
  inferInstanceAs (Decidable (_ ∧ _ ∧ _))

/-- A numeral with a sign or without one. -/
inductive IsDecimal : List Char → Int → Prop
  | unsigned {digits : List Char} {m : Nat} (h : IsNumeral digits m) : IsDecimal digits m
  | plus {digits : List Char} {m : Nat} (h : IsNumeral digits m) : IsDecimal ('+' :: digits) m
  | minus {digits : List Char} {m : Nat} (h : IsNumeral digits m) : IsDecimal ('-' :: digits) (-m)

variable {cs : List Char} {m : Nat} {n : Int}

theorem IsNumeral.readNat? (h : IsNumeral cs m) : readNat? cs = some m := by
  obtain ⟨hne, hdigits, rfl⟩ := h
  exact if_pos ⟨hne, List.all_eq_true.mpr fun c hc => by simpa [isDigit] using hdigits c hc⟩

theorem IsNumeral.readSign (h : IsNumeral cs m) : readSign cs = (false, cs) := by
  obtain ⟨-, hdigits, -⟩ := h
  unfold Chars.readSign
  split
  · exact absurd (hdigits '-' List.mem_cons_self) (by decide)
  · exact absurd (hdigits '+' List.mem_cons_self) (by decide)
  · rfl

theorem IsDecimal.readInt? (h : IsDecimal cs n) (hfits : fits64 n = true) : readInt? cs = some n := by
  cases h with
  | unsigned h => simp [Chars.readInt?, h.readSign, h.readNat?, signed, hfits]
  | plus h => simp [Chars.readInt?, Chars.readSign, h.readNat?, signed, hfits]
  | minus h => simp [Chars.readInt?, Chars.readSign, h.readNat?, signed, hfits]

theorem IsNumeral.not_isBlank (h : IsNumeral cs m) : ∀ c ∈ cs, isBlank c = false := fun c hc =>
  (digit_spec (Char.isDigit_iff_toNat.mpr (h.2.1 c hc))).1

theorem IsDecimal.not_isBlank (h : IsDecimal cs n) : ∀ c ∈ cs, isBlank c = false := by
  cases h with
  | unsigned h => exact h.not_isBlank
  | plus h => exact List.forall_mem_cons.mpr ⟨by decide, h.not_isBlank⟩
  | minus h => exact List.forall_mem_cons.mpr ⟨by decide, h.not_isBlank⟩

theorem trim_of_not_isBlank (h : ∀ c ∈ cs, isBlank c = false) : trim cs = cs := by
  rw [trim, trimStart_of_head fun c hc => h c (List.mem_of_mem_head? hc), trimEnd,
    dropEndWhile_of_getLast fun c hc => h c (List.mem_of_mem_getLast? hc)]

end Chars

/-- The text is a decimal literal, and it denotes an integer of 64 bits. -/
def Text.Denotes (s : String) (n : Int) : Prop := IsDecimal s.toList n ∧ -2 ^ 63 ≤ n ∧ n < 2 ^ 63

namespace Text.Denotes

variable {s : String} {m n : Int}

theorem coerce (h : Denotes s n) : DataType.number.coerce s = some (.int n) := by
  obtain ⟨hdecimal, hleast, hgreatest⟩ := h
  have hfits : fits64 n = true := by
    simp only [fits64, Bool.and_eq_true, decide_eq_true_eq]
    omega
  have htrim : (Text.trim s).toList = s.toList := by
    rw [Text.trim, String.toList_ofList, trim_of_not_isBlank hdecimal.not_isBlank]
  simp only [DataType.coerce, htrim, hdecimal.readInt? hfits]

theorem unique (hm : Denotes s m) (hn : Denotes s n) : m = n := by
  have hsame := hm.coerce.symm.trans hn.coerce
  exact Value.int.inj (Option.some.inj hsame)

theorem natAbs_lt (h : Denotes s n) : n.natAbs < 2 ^ 64 := by
  obtain ⟨-, hleast, hgreatest⟩ := h
  omega

end Text.Denotes

namespace AttributeType

open Text

variable {d : AttributeType} {value : String} {n : Int}

/-- A value is allowed if it is rounded to the same number as one of those that are listed. -/
theorem allows_iff_rounded (hnumber : d.dataType = .number) (hlisted : ∀ a ∈ d.allowedValues, ∃ m, Denotes a m)
    (hvalue : Denotes value n) : d.allows value = true ↔
      d.allowedValues = [] ∨ ∃ a ∈ d.allowedValues, ∃ m, Denotes a m ∧ rounded m = rounded n := by
  unfold allows
  split
  · rename_i hempty
    exact iff_of_true rfl (.inl (List.isEmpty_iff.mp hempty))
  · rename_i hsome
    have hne : d.allowedValues ≠ [] := fun hnil => hsome (List.isEmpty_iff.mpr hnil)
    rw [hnumber]
    simp only [reduceCtorEq, if_false, hvalue.coerce, hne, false_or, List.any_eq_true, List.mem_filterMap]
    have hsame {m : Int} {a : String} (ha : Denotes a m) :
        (Value.int m).same (.int n) = true ↔ rounded m = rounded n := same_ofInt_iff ha.natAbs_lt hvalue.natAbs_lt
    constructor
    · rintro ⟨_, ⟨a, ha, hcoerced⟩, hv⟩
      obtain ⟨m, hm⟩ := hlisted a ha
      rw [hm.coerce] at hcoerced
      cases hcoerced
      exact ⟨a, ha, m, hm, (hsame hm).mp hv⟩
    · rintro ⟨a, ha, m, hm, hrounded⟩
      exact ⟨_, ⟨a, ha, hm.coerce⟩, (hsame hm).mpr hrounded⟩

/-- Of integers, the values are allowed that are rounded to the same number as a listed one. With less than 53 bits that
are the listed ones alone; and no others are far from a listed one. -/
theorem allows_number_iff (hnumber : d.dataType = .number) (hlisted : ∀ a ∈ d.allowedValues, ∃ m, Denotes a m)
    (hvalue : Denotes value n) :
    (d.allows value = true ↔
      d.allowedValues = [] ∨ ∃ a ∈ d.allowedValues, ∃ m, Denotes a m ∧ rounded m = rounded n) ∧
    (n.natAbs < 2 ^ 53 → (d.allows value = true ↔ d.allowedValues = [] ∨ ∃ a ∈ d.allowedValues, Denotes a n)) ∧
    (d.allows value = true → d.allowedValues = [] ∨ ∃ a ∈ d.allowedValues, ∃ m, Denotes a m ∧ |m - n| ≤ 2 ^ 11) := by
  have hrounded := allows_iff_rounded hnumber hlisted hvalue
  refine ⟨hrounded, fun hsmall => ?_, fun hallowed => ?_⟩
  · simp only [hrounded, rounded_eq_iff_of_lt hsmall, exists_eq_right]
  · refine (hrounded.mp hallowed).imp_right fun ⟨a, ha, m, hm, hsame⟩ => ⟨a, ha, m, hm, ?_⟩
    exact abs_sub_le_of_rounded_eq hvalue.natAbs_lt hm.natAbs_lt hsame

/-- The numbers on the rings of two birds. -/
def ringNumber : AttributeType :=
  { name := "ring number", dataType := .number, allowedValues := ["-0042", "9007199254740992"] }

/-- A small number must be on the list, with any zeros in front; a great one goes through that is not on it. -/
theorem allows_ringNumber : ringNumber.allows "-42" = true ∧ ringNumber.allows "+42" = false ∧
    ringNumber.allows "9007199254740993" = true ∧ ¬∃ a ∈ ringNumber.allowedValues, Denotes a 9007199254740993 := by
  have hzeros : IsNumeral ['0', '0', '4', '2'] 42 := by decide
  have hplain : IsNumeral ['4', '2'] 42 := by decide
  have hlow : Denotes "-0042" (-42) := ⟨.minus hzeros, by decide, by decide⟩
  have hhigh : Denotes "9007199254740992" 9007199254740992 :=
    ⟨.unsigned (m := 9007199254740992) (by decide), by decide, by decide⟩
  have hringed : Denotes "-42" (-42) := ⟨.minus hplain, by decide, by decide⟩
  have hfree : Denotes "+42" 42 := ⟨.plus hplain, by decide, by decide⟩
  have hgreat : Denotes "9007199254740993" 9007199254740993 :=
    ⟨.unsigned (m := 9007199254740993) (by decide), by decide, by decide⟩
  have hlisted : ∀ a ∈ ringNumber.allowedValues, ∃ m, Denotes a m :=
    List.forall_mem_cons.mpr ⟨⟨_, hlow⟩, List.forall_mem_singleton.mpr ⟨_, hhigh⟩⟩
  have honly : ∀ m, (∃ a ∈ ringNumber.allowedValues, Denotes a m) → m = -42 ∨ m = 9007199254740992 := by
    rintro m ⟨a, ha, hm⟩
    rcases List.mem_pair.mp ha with rfl | rfl
    · exact .inl (hm.unique hlow)
    · exact .inr (hm.unique hhigh)
  obtain ⟨-, hexact, -⟩ := allows_number_iff rfl hlisted hringed
  obtain ⟨-, hexact', -⟩ := allows_number_iff rfl hlisted hfree
  obtain ⟨hrounded, -, -⟩ := allows_number_iff rfl hlisted hgreat
  refine ⟨(hexact (by decide)).mpr (.inr ⟨_, List.mem_cons_self, hlow⟩), Bool.eq_false_iff.mpr fun h => ?_,
    hrounded.mpr (.inr ⟨_, List.mem_of_mem_getLast? rfl, _, hhigh, by decide +kernel⟩), fun h => ?_⟩
  · rcases (hexact' (by decide)).mp h with hnil | hthere
    · cases hnil
    · exact absurd (honly _ hthere) (by decide)
  · exact absurd (honly _ h) (by decide)

end AttributeType

end Morphology
