import Mathlib.Data.List.Nodup
import Morphology.Entity

/-! The reference lists of a morph as one set of edges: what inserting and removing do to it, and what is left
when only some edges are kept. -/

namespace Morphology.Morph

variable {m : Morph} {e e' : EdgeRef}

/-- What holds of a morph record by itself: no edge is listed twice. -/
structure Sound (m : Morph) : Prop where
  relations : m.relations.Nodup
  attributes : m.attributes.Nodup

def keep (m : Morph) (p : EdgeRef → Bool) : Morph :=
  { m with
    relations := m.relations.filter fun id => p (.relation id)
    attributes := m.attributes.filter fun id => p (.attr id) }

theorem mem_refs : e ∈ m.refs ↔ m.contains e = true := by
  cases e <;> simp [refs, contains]

theorem contains_new {id : MorphId} {owner : NodeId} {name : Option String} :
    (new id owner name).contains e = false := by
  cases e <;> rfl

theorem sound_new (id : MorphId) (owner : NodeId) (name : Option String) : (new id owner name).Sound :=
  ⟨.nil, .nil⟩

theorem contains_keep {p : EdgeRef → Bool} :
    (m.keep p).contains e = true ↔ m.contains e = true ∧ p e = true := by
  cases e <;> simp [keep, contains]

theorem Sound.keep (h : m.Sound) (p : EdgeRef → Bool) : (m.keep p).Sound :=
  ⟨h.relations.filter _, h.attributes.filter _⟩

theorem keep_keep (p q : EdgeRef → Bool) : (m.keep p).keep q = m.keep fun e => p e && q e := by
  simp [Morph.keep, List.filter_filter, Bool.and_comm]

theorem keep_congr {p q : EdgeRef → Bool} (h : ∀ e, m.contains e = true → p e = q e) :
    m.keep p = m.keep q := by
  have hr : m.relations.filter (fun id => p (.relation id)) = m.relations.filter fun id => q (.relation id) :=
    List.filter_congr fun id hid => h (.relation id) (by simpa [contains] using hid)
  have ha : m.attributes.filter (fun id => p (.attr id)) = m.attributes.filter fun id => q (.attr id) :=
    List.filter_congr fun id hid => h (.attr id) (by simpa [contains] using hid)
  simp [Morph.keep, hr, ha]

theorem keep_true : (m.keep fun _ => true) = m := by
  simp [Morph.keep]

theorem keep_eq_self {p : EdgeRef → Bool} (h : ∀ e, m.contains e = true → p e = true) : m.keep p = m :=
  (keep_congr h).trans keep_true

theorem remove_eq_keep : m.remove e = m.keep fun e' => decide (e' ≠ e) := by
  cases e <;> simp [remove, Morph.keep]

theorem remove_eq_self (h : m.contains e = false) : m.remove e = m := by
  rw [remove_eq_keep, keep_congr (q := fun _ => true), keep_true]
  rintro e' he'
  have hne : e' ≠ e := by
    rintro rfl
    simp [h] at he'
  simpa using hne

theorem contains_remove : (m.remove e).contains e' = true ↔ m.contains e' = true ∧ e' ≠ e := by
  rw [remove_eq_keep, contains_keep]
  simp

theorem contains_insert : (m.insert e).contains e' = true ↔ e' = e ∨ m.contains e' = true := by
  unfold insert
  split
  · rename_i h
    constructor
    · exact Or.inr
    · rintro (rfl | h')
      · exact h
      · exact h'
  · cases e <;> cases e' <;> simp [contains, or_comm]

theorem insert_eq_self (h : m.contains e = true) : m.insert e = m := if_pos h

theorem nodup_concat {α : Type} {l : List α} {a : α} (h : l.Nodup) (ha : a ∉ l) : (l ++ [a]).Nodup := by
  simpa only [List.concat_eq_append] using h.concat ha

theorem Sound.insert (h : m.Sound) (e : EdgeRef) : (m.insert e).Sound := by
  unfold Morph.insert
  split
  · exact h
  · rename_i hnot
    cases e with
    | relation id => exact ⟨nodup_concat h.relations (by simpa [contains] using hnot), h.attributes⟩
    | attr id => exact ⟨h.relations, nodup_concat h.attributes (by simpa [contains] using hnot)⟩

theorem Sound.nodup_refs (h : m.Sound) : m.refs.Nodup := by
  refine List.nodup_append.mpr ⟨h.relations.map ?_, h.attributes.map ?_, ?_⟩
  · intro a b hab
    simpa using hab
  · intro a b hab
    simpa using hab
  · simp

@[simp] theorem insert_owner : (m.insert e).owner = m.owner := by
  unfold insert
  split
  · rfl
  · cases e <;> rfl

@[simp] theorem keep_owner {p : EdgeRef → Bool} : (m.keep p).owner = m.owner := rfl

/-- Looking a morph up does not show that others of the table lost references. -/
theorem map_keep_eq_some {ms : Option Morph} {p : EdgeRef → Bool}
    (h : ∀ m₀, ms = some m₀ → m₀.owner = m.owner → m₀.keep p = m₀) : ms.map (·.keep p) = some m ↔ ms = some m := by
  constructor
  · intro hm
    obtain ⟨m₀, hm₀, hkeep⟩ := Option.map_eq_some_iff.mp hm
    have howner : m₀.owner = m.owner := by rw [← hkeep, keep_owner]
    rw [hm₀, ← hkeep, h m₀ hm₀ howner]
  · intro hm
    rw [hm, Option.map_some, h m hm rfl]

end Morphology.Morph
