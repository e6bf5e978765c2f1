import Mathlib.Data.List.Nodup
import Morphology.Index

/-! Lookups in tables and indexes whose keys compare equal only to themselves. A table holds what was last
written at a key; an index lists an item under a key as long as the pair has not been removed. -/

namespace Morphology

open Std

namespace Table

section

variable {κ α : Type} [Ord κ] {t : Table κ α} {k : κ}

theorem contains_iff : t.contains k = true ↔ ∃ v, t.get? k = some v :=
  Option.isSome_iff_exists

theorem contains_eq_false : t.contains k = false ↔ t.get? k = none := by
  simp [contains]

theorem length_keys (t : Table κ α) : t.keys.length = t.size := by
  simp [keys, size]

/-- The same keys, with other values. -/
def mapValues {β : Type} (t : Table κ α) (f : α → β) : Table κ β where
  entries := t.entries.map fun e => (e.1, f e.2)
  increasing := List.pairwise_map.mpr t.increasing

section Map

variable {β : Type} {f : α → β}

theorem values_mapValues : (t.mapValues f).values = t.values.map f := by
  simp [values, mapValues]

theorem lookup_mapValues : (t.mapValues f).get? k = (t.get? k).map f := by
  show find k (t.entries.map _) = (find k t.entries).map f
  induction t.entries with
  | nil => rfl
  | cons e es ih =>
    simp only [List.map_cons, find, ih]
    split <;> rfl

theorem contains_mapValues : (t.mapValues f).contains k = t.contains k := by
  rw [contains, lookup_mapValues, Option.isSome_map, contains]

end Map

theorem increasing_keys (t : Table κ α) : t.keys.Pairwise fun a b => compare a b = .lt :=
  List.pairwise_map.mpr t.increasing

/-- The values that stand at some of the keys, in the order of the keys, which they name themselves. -/
theorem increasing_filterMap {part : α → κ} (hpart : ∀ {k v}, t.get? k = some v → part v = k) {ks : List κ}
    (hks : ks.Pairwise fun a b => compare a b = .lt) :
    (ks.filterMap t.get?).Pairwise fun v w => compare (part v) (part w) = .lt := by
  refine hks.filterMap t.get? fun a b hlt v hv w hw => ?_
  rw [hpart hv, hpart hw]
  exact hlt

theorem nodup_keys [LawfulEqOrd κ] (t : Table κ α) : t.keys.Nodup := by
  refine t.increasing_keys.imp fun {a b} hlt => ?_
  rintro rfl
  simp at hlt

variable [LawfulEqOrd κ] [DecidableEq κ] {v : α}

theorem mem_of_find {es : List (κ × α)} (h : find k es = some v) : (k, v) ∈ es := by
  induction es with
  | nil => cases h
  | cons e es ih =>
    simp only [find, Std.compare_eq_iff_eq] at h
    split at h
    · rename_i hk
      subst hk
      simp only [Option.some.injEq] at h
      subst h
      exact List.mem_cons_self
    · exact List.mem_cons_of_mem _ (ih h)

theorem find_of_mem {es : List (κ × α)} (hes : es.Pairwise fun a b => compare a.1 b.1 = .lt)
    (h : (k, v) ∈ es) : find k es = some v := by
  induction es with
  | nil => cases h
  | cons e es ih =>
    obtain ⟨hhead, htail⟩ := List.pairwise_cons.mp hes
    simp only [find, Std.compare_eq_iff_eq]
    rcases List.mem_cons.mp h with rfl | h
    · simp
    · have hne : k ≠ e.1 := by
        rintro rfl
        have := hhead _ h
        simp at this
      rw [if_neg hne, ih htail h]

theorem mem_entries : (k, v) ∈ t.entries ↔ t.get? k = some v :=
  ⟨find_of_mem t.increasing, mem_of_find⟩

theorem mem_values : v ∈ t.values ↔ ∃ k, t.get? k = some v := by
  simp [values, mem_entries]

theorem mem_keys : k ∈ t.keys ↔ t.contains k = true := by
  simp [keys, mem_entries, contains_iff]

theorem map_values {part : α → κ} (hpart : ∀ {k v}, t.get? k = some v → part v = k) : t.values.map part = t.keys := by
  rw [values, keys, List.map_map]
  exact List.map_congr_left fun e he => hpart (mem_entries.mp he)

theorem find_filter (p : κ → α → Bool) {es : List (κ × α)}
    (hes : es.Pairwise fun a b => compare a.1 b.1 = .lt) :
    find k (es.filter fun e => p e.1 e.2) = (find k es).filter (p k) := by
  induction es with
  | nil => rfl
  | cons e es ih =>
    obtain ⟨hhead, htail⟩ := List.pairwise_cons.mp hes
    by_cases hk : k = e.1
    · subst hk
      have hnone : find e.1 es = none := find_eq_none_of_lt fun d hd => hhead d hd
      by_cases hp : p e.1 e.2
      · simp [find, hp, Option.filter_some]
      · simp [find, hp, Option.filter_some, ih htail, hnone]
    · by_cases hp : p e.1 e.2 <;> simp [hp, find, hk, ih htail]

theorem lookup_filter {p : κ → α → Bool} : (t.filter p).get? k = (t.get? k).filter (p k) :=
  find_filter p t.increasing

end

variable {κ α : Type} [Ord κ] [TransOrd κ] [LawfulEqOrd κ] [DecidableEq κ] {t : Table κ α} {k k' : κ}
  {v : α}

theorem lookup_insert : (t.insert k v).get? k' = if k' = k then some v else t.get? k' := by
  simp [get?_insert]

theorem lookup_insert_self : (t.insert k v).get? k = some v := by
  simp [lookup_insert]

theorem insert_of_lookup (h : t.get? k = some v) : t.insert k v = t := by
  refine ext_get? fun k' => ?_
  rw [lookup_insert]
  split
  · rename_i hk
    rw [hk, h]
  · rfl

theorem lookup_erase : (t.erase k).get? k' = if k' = k then none else t.get? k' := by
  simp [get?_erase]

theorem lookup_modify {f : α → α} :
    (t.modify k f).get? k' = if k' = k then (t.get? k').map f else t.get? k' := by
  unfold modify
  by_cases hk : k' = k
  · subst hk
    cases hv : t.get? k' with
    | none => simp [hv]
    | some v => simp [lookup_insert]
  · cases hv : t.get? k with
    | none => simp [hk]
    | some v => simp [lookup_insert, hk]

theorem contains_insert : (t.insert k v).contains k' = true ↔ k' = k ∨ t.contains k' = true := by
  simp only [contains_iff, lookup_insert]
  by_cases hk : k' = k <;> simp [hk]

theorem contains_erase : (t.erase k).contains k' = true ↔ k' ≠ k ∧ t.contains k' = true := by
  simp only [contains_iff, lookup_erase]
  by_cases hk : k' = k <;> simp [hk]

theorem contains_modify {f : α → α} : (t.modify k f).contains k' = t.contains k' := by
  rw [contains, lookup_modify, contains]
  split
  · rw [Option.isSome_map]
  · rfl

section MapWrites

variable {β : Type} {f : α → β}

theorem mapValues_insert : (t.insert k v).mapValues f = (t.mapValues f).insert k (f v) := by
  refine ext_get? fun k' => ?_
  simp only [lookup_mapValues, lookup_insert]
  split <;> rfl

theorem mapValues_erase : (t.erase k).mapValues f = (t.mapValues f).erase k := by
  refine ext_get? fun k' => ?_
  simp only [lookup_mapValues, lookup_erase]
  split <;> rfl

theorem mapValues_modify {c : α → α} {c' : β → β} (hc : ∀ v, f (c v) = c' (f v)) :
    (t.modify k c).mapValues f = (t.mapValues f).modify k c' := by
  refine ext_get? fun k' => ?_
  simp only [lookup_mapValues, lookup_modify]
  split
  · rw [Option.map_map, Option.map_map]
    exact congrArg (Option.map · _) (funext hc)
  · rfl

end MapWrites

end Table

namespace KeySet

variable {κ : Type} [Ord κ] [TransOrd κ] [LawfulEqOrd κ] [DecidableEq κ] {s : KeySet κ} {k k' : κ}

theorem contains_add : (add s k).contains k' = true ↔ k' = k ∨ s.contains k' = true := Table.contains_insert

theorem contains_ofList {ks : List κ} : (ofList ks).contains k = true ↔ k ∈ ks := by
  have hadded (ks : List κ) (s : KeySet κ) : (ks.foldl add s).contains k = true ↔ k ∈ ks ∨ s.contains k = true := by
    induction ks generalizing s with
    | nil => simp
    | cons l ks ih => rw [List.foldl_cons, ih, contains_add, List.mem_cons, or_left_comm, or_assoc]
  rw [ofList, hadded]
  simp [Table.contains, Table.get?_empty]

/-- The values that stand at some of the keys, each of which names its own. -/
theorem mem_filterMap_ofList {α : Type} {t : Table κ α} {part : α → κ}
    (hpart : ∀ {k v}, t.get? k = some v → part v = k) {ks : List κ} {v : α} :
    v ∈ (ofList ks).keys.filterMap t.get? ↔ t.get? (part v) = some v ∧ part v ∈ ks := by
  simp only [List.mem_filterMap, Table.mem_keys, contains_ofList]
  constructor
  · rintro ⟨k, hk, hv⟩
    rw [hpart hv]
    exact ⟨hv, hk⟩
  · exact fun ⟨hv, hk⟩ => ⟨part v, hk, hv⟩

end KeySet

namespace Index

theorem count_eq_zero {κ α : Type} [Ord κ] [Ord α] {x : Index κ α} {k : κ} :
    x.count k = 0 ↔ ∀ a, a ∉ x.items k := by
  simp [count, List.eq_nil_iff_forall_not_mem]

theorem nodup_items {κ α : Type} [Ord κ] [Ord α] [LawfulEqOrd κ] [LawfulEqOrd α] (x : Index κ α) (k : κ) :
    (x.items k).Nodup := by
  refine List.Nodup.map_on ?_ ((Table.nodup_keys _).filter _)
  intro p hp q hq hpq
  simp only [List.mem_filter, beq_iff_eq, Std.compare_eq_iff_eq] at hp hq
  obtain ⟨pk, pi⟩ := p
  obtain ⟨qk, qi⟩ := q
  simp_all

variable {κ α : Type} [Ord κ] [Ord α] [LawfulEqOrd κ] [LawfulEqOrd α] [DecidableEq κ] [DecidableEq α]
  {x : Index κ α} {k k' : κ} {a b : α}

theorem mem_items : a ∈ x.items k ↔ x.pairs.contains ⟨k, a⟩ = true := by
  simp only [items, List.mem_map, List.mem_filter, Table.mem_keys, beq_iff_eq, Std.compare_eq_iff_eq]
  constructor
  · rintro ⟨⟨key, item⟩, ⟨hp, rfl⟩, rfl⟩
    exact hp
  · exact fun h => ⟨⟨k, a⟩, ⟨h, rfl⟩, rfl⟩

theorem not_mem_items_empty : a ∉ (∅ : Index κ α).items k := by
  simp [mem_items, Table.contains, Table.get?_empty, show (∅ : Index κ α).pairs = ∅ from rfl]

theorem mem_items_removeKey : a ∈ (x.removeKey k).items k' ↔ k' ≠ k ∧ a ∈ x.items k' := by
  simp only [mem_items, removeKey, Table.contains_iff, Table.lookup_filter]
  by_cases hk : k' = k
  · simp [hk]
  · have hne : compare k k' ≠ .eq := fun h => hk (LawfulEqCmp.eq_of_compare h).symm
    simp [hk, hne, Option.filter_eq_some_iff]

variable [TransOrd κ] [TransOrd α]

theorem mem_items_add : a ∈ (x.add k b).items k' ↔ (k' = k ∧ a = b) ∨ a ∈ x.items k' := by
  simp only [mem_items, add, KeySet.contains_add, Pairing.mk.injEq]

theorem add_of_mem (h : a ∈ x.items k) : x.add k a = x := by
  obtain ⟨u, hu⟩ := Table.contains_iff.mp (mem_items.mp h)
  exact congrArg Index.mk (Table.insert_of_lookup hu)

theorem mem_items_remove : a ∈ (x.remove k b).items k' ↔ ¬(k' = k ∧ a = b) ∧ a ∈ x.items k' := by
  simp only [mem_items, remove, Table.contains_erase, ne_eq, Pairing.mk.injEq]

/-! An index may list the keys of a table by a part of the values that stand there. -/

variable {β : Type} {t : Table α β} (part : β → κ) (v : β)

theorem mem_items_add_insert (hx : ∀ {c k}, k ∈ x.items c ↔ ∃ w, t.get? k = some w ∧ part w = c)
    (hpart : ∀ w, t.get? a = some w → part w = part v) :
    b ∈ (x.add (part v) a).items k ↔ ∃ w, (t.insert a v).get? b = some w ∧ part w = k := by
  rw [mem_items_add, hx, Table.lookup_insert]
  by_cases hb : b = a
  · subst hb
    simp only [and_true, if_true, Option.some.injEq, exists_eq_left']
    constructor
    · rintro (hk | ⟨w, hw, hk⟩)
      · exact hk.symm
      · exact (hpart w hw).symm.trans hk
    · exact fun hk => Or.inl hk.symm
  · simp [hb]

theorem mem_items_remove_erase (hx : ∀ {c k}, k ∈ x.items c ↔ ∃ w, t.get? k = some w ∧ part w = c)
    (hv : t.get? a = some v) :
    b ∈ (x.remove (part v) a).items k ↔ ∃ w, (t.erase a).get? b = some w ∧ part w = k := by
  rw [mem_items_remove, hx, Table.lookup_erase]
  by_cases hb : b = a
  · subst hb
    simp only [and_true, if_true, hv, Option.some.injEq, exists_eq_left', reduceCtorEq, false_and,
      exists_false, iff_false, not_and]
    exact fun hne hk => hne hk.symm
  · simp [hb]

end Index

end Morphology
