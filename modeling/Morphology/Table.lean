/-! Finite tables in the order of their keys. The list of entries is strictly increasing by key, so two tables
with the same lookups are equal. Main statements: `get?_insert`, `get?_erase` and `Table.ext_get?`. -/

namespace Morphology

open Std

structure Table (κ α : Type) [Ord κ] where
  entries : List (κ × α)
  increasing : entries.Pairwise fun a b => compare a.1 b.1 = .lt
  deriving DecidableEq

namespace Table

variable {κ α : Type} [Ord κ]

def find (k : κ) : List (κ × α) → Option α
  | [] => none
  | e :: rest => if compare k e.1 = .eq then some e.2 else find k rest

def insertEntry (k : κ) (v : α) : List (κ × α) → List (κ × α)
  | [] => [(k, v)]
  | e :: rest =>
    match compare k e.1 with
    | .lt => (k, v) :: e :: rest
    | .eq => (k, v) :: rest
    | .gt => e :: insertEntry k v rest

theorem mem_insertEntry {k : κ} {v : α} {e : κ × α} {es : List (κ × α)}
    (h : e ∈ insertEntry k v es) : e = (k, v) ∨ e ∈ es := by
  induction es with
  | nil => simpa [insertEntry] using h
  | cons d es ih =>
    simp only [insertEntry] at h
    split at h
    · simpa using h
    · rcases List.mem_cons.mp h with h | h
      · exact Or.inl h
      · exact Or.inr (List.mem_cons_of_mem _ h)
    · rcases List.mem_cons.mp h with h | h
      · exact Or.inr (h ▸ List.mem_cons_self)
      · exact (ih h).imp_right (List.mem_cons_of_mem _)

def empty : Table κ α := ⟨[], .nil⟩

instance : EmptyCollection (Table κ α) := ⟨empty⟩

instance : Inhabited (Table κ α) := ⟨empty⟩

def get? (t : Table κ α) (k : κ) : Option α := find k t.entries

def contains (t : Table κ α) (k : κ) : Bool := (t.get? k).isSome

def keys (t : Table κ α) : List κ := t.entries.map (·.1)

def values (t : Table κ α) : List α := t.entries.map (·.2)

def size (t : Table κ α) : Nat := t.entries.length

def filter (t : Table κ α) (p : κ → α → Bool) : Table κ α :=
  ⟨t.entries.filter fun e => p e.1 e.2, t.increasing.filter _⟩

def erase (t : Table κ α) (k : κ) : Table κ α :=
  t.filter fun k' _ => compare k k' ≠ .eq

theorem get?_empty (k : κ) : (∅ : Table κ α).get? k = none := rfl

theorem find_eq_none_of_lt {k : κ} {es : List (κ × α)} (h : ∀ e ∈ es, compare k e.1 = .lt) :
    find k es = none := by
  induction es with
  | nil => rfl
  | cons e es ih =>
    simp [find, h e List.mem_cons_self, ih fun d hd => h d (List.mem_cons_of_mem _ hd)]

variable [TransOrd κ]

theorem increasing_insertEntry (k : κ) (v : α) {es : List (κ × α)}
    (h : es.Pairwise fun a b => compare a.1 b.1 = .lt) :
    (insertEntry k v es).Pairwise fun a b => compare a.1 b.1 = .lt := by
  induction es with
  | nil => simp [insertEntry]
  | cons e es ih =>
    obtain ⟨hhead, htail⟩ := List.pairwise_cons.mp h
    simp only [insertEntry]
    split
    · rename_i hlt
      refine List.pairwise_cons.mpr ⟨fun d hd => ?_, h⟩
      rcases List.mem_cons.mp hd with rfl | hd
      · exact hlt
      · exact TransCmp.lt_trans hlt (hhead d hd)
    · rename_i heq
      exact List.pairwise_cons.mpr ⟨fun d hd => TransCmp.lt_of_eq_of_lt heq (hhead d hd), htail⟩
    · rename_i hgt
      refine List.pairwise_cons.mpr ⟨fun d hd => ?_, ih htail⟩
      rcases mem_insertEntry hd with rfl | hd
      · exact OrientedCmp.gt_iff_lt.mp hgt
      · exact hhead d hd

def insert (t : Table κ α) (k : κ) (v : α) : Table κ α :=
  ⟨insertEntry k v t.entries, increasing_insertEntry k v t.increasing⟩

/-- Applies `f` to the value at `k`, if there is one. -/
def modify (t : Table κ α) (k : κ) (f : α → α) : Table κ α :=
  match t.get? k with
  | some v => t.insert k (f v)
  | none => t

theorem find_insertEntry (k k' : κ) (v : α) (es : List (κ × α)) :
    find k' (insertEntry k v es) = if compare k' k = .eq then some v else find k' es := by
  induction es with
  | nil => simp [insertEntry, find]
  | cons e es ih =>
    simp only [insertEntry]
    split
    · simp [find]
    · rename_i heq
      simp only [find]
      split
      · rfl
      · rename_i hne
        rw [if_neg (fun h => hne (TransCmp.eq_trans h (OrientedCmp.eq_symm heq)))]
    · rename_i hgt
      simp only [find, ih]
      by_cases hk : compare k' e.1 = .eq
      · have : compare k' k ≠ .eq := fun h => by
          have := TransCmp.eq_trans (OrientedCmp.eq_symm h) hk
          simp [this] at hgt
        simp [hk, this]
      · simp [hk]

theorem get?_insert (t : Table κ α) (k k' : κ) (v : α) :
    (t.insert k v).get? k' = if compare k' k = .eq then some v else t.get? k' :=
  find_insertEntry k k' v t.entries

theorem find_filter_ne (k k' : κ) (es : List (κ × α)) :
    find k' (es.filter fun e => compare k e.1 ≠ .eq) =
      if compare k' k = .eq then none else find k' es := by
  induction es with
  | nil => simp [find]
  | cons e es ih =>
    by_cases hk : compare k e.1 = .eq
    · simp only [List.filter_cons, hk, ne_eq, not_true_eq_false, decide_false, Bool.false_eq_true,
        if_false, find]
      rw [ih]
      by_cases hkk : compare k' k = .eq
      · simp [hkk]
      · rw [if_neg hkk, if_neg hkk,
          if_neg (fun h => hkk (TransCmp.eq_trans h (OrientedCmp.eq_symm hk)))]
    · simp only [List.filter_cons, hk, ne_eq, not_false_eq_true, decide_true, if_true, find]
      rw [ih]
      by_cases hke : compare k' e.1 = .eq
      · rw [if_pos hke, if_neg (fun h => hk (TransCmp.eq_trans (OrientedCmp.eq_symm h) hke)),
          if_pos hke]
      · simp [hke]

theorem get?_erase (t : Table κ α) (k k' : κ) :
    (t.erase k).get? k' = if compare k' k = .eq then none else t.get? k' :=
  find_filter_ne k k' t.entries

theorem entries_eq_of_find [LawfulEqOrd κ] {es ds : List (κ × α)}
    (hes : es.Pairwise fun a b => compare a.1 b.1 = .lt)
    (hds : ds.Pairwise fun a b => compare a.1 b.1 = .lt)
    (h : ∀ k, find k es = find k ds) : es = ds := by
  induction es generalizing ds with
  | nil =>
    cases ds with
    | nil => rfl
    | cons d ds => simpa [find] using h d.1
  | cons e es ih =>
    cases ds with
    | nil => simpa [find] using h e.1
    | cons d ds =>
      obtain ⟨hee, hes'⟩ := List.pairwise_cons.mp hes
      obtain ⟨hdd, hds'⟩ := List.pairwise_cons.mp hds
      have hkey : compare e.1 d.1 = .eq := by
        rcases hc : compare e.1 d.1 with _ | _ | _
        · have hn : find e.1 ds = none :=
            find_eq_none_of_lt fun x hx => TransCmp.lt_trans hc (hdd x hx)
          simpa [find, hc, hn] using h e.1
        · rfl
        · have hc' : compare d.1 e.1 = .lt := OrientedCmp.gt_iff_lt.mp hc
          have hn : find d.1 es = none :=
            find_eq_none_of_lt fun x hx => TransCmp.lt_trans hc' (hee x hx)
          simpa [find, hc', hn] using h d.1
      have hke : e.1 = d.1 := LawfulEqCmp.eq_of_compare hkey
      have hve : e.2 = d.2 := by simpa [find, hkey] using h e.1
      have hed : e = d := Prod.ext hke hve
      subst hed
      congr 1
      refine ih hes' hds' fun k => ?_
      have hk := h k
      simp only [find] at hk
      by_cases hc : compare k e.1 = .eq
      · have hlt : ∀ x : κ × α, compare e.1 x.1 = .lt → compare k x.1 = .lt :=
          fun x hx => TransCmp.lt_of_eq_of_lt hc hx
        rw [find_eq_none_of_lt fun x hx => hlt x (hee x hx),
          find_eq_none_of_lt fun x hx => hlt x (hdd x hx)]
      · simpa [hc] using hk

theorem ext_get? [LawfulEqOrd κ] {s t : Table κ α} (h : ∀ k, s.get? k = t.get? k) : s = t := by
  obtain ⟨es, hes⟩ := s
  obtain ⟨ds, hds⟩ := t
  have := entries_eq_of_find hes hds h
  subst this
  rfl

end Table

end Morphology
