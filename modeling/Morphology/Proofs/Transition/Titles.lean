import Morphology.Proofs.Naming
import Morphology.Proofs.Transition.Storing

/-! What the id of a transition tells of its name and adjective. They stand in it one behind the other, with two colons
between them and low lines for blanks, so that names which have such characters of their own may come to the same id.
Where they are clear of these, an id belongs to one name and adjective alone, in whatever spelling. -/

namespace Morphology

open Chars

namespace Chars

/-- Low lines for blanks. -/
def underscored (cs : List Char) : List Char := cs.map fun c => if c = ' ' then '_' else c

theorem underscored_inj {cs ds : List Char} (hcs : '_' ∉ cs) (hds : '_' ∉ ds) (h : underscored cs = underscored ds) :
    cs = ds := by
  have hback {cs : List Char} (hcs : '_' ∉ cs) : (underscored cs).map (fun c => if c = '_' then ' ' else c) = cs := by
    refine (List.map_map.trans (List.map_congr_left fun c hc => ?_)).trans (List.map_id cs)
    have hne : c ≠ '_' := fun heq => hcs (heq ▸ hc)
    by_cases hblank : c = ' '
    · simp [hblank]
    · simp [hblank, hne]
  rw [← hback hcs, h, hback hds]

end Chars

namespace NameKey

/-- The name behind its adjective. -/
def title (k : NameKey) : List Char :=
  match k.qualifier with
  | some adjective => adjective.toList ++ ':' :: ':' :: k.base.toList
  | none => k.base.toList

/-- The titles differ in blanks and low lines at most. -/
def SharesTitle (k k' : NameKey) : Prop := underscored k.title = underscored k'.title

instance (k k' : NameKey) : Decidable (k.SharesTitle k') := inferInstanceAs (Decidable (_ = _))

/-- There are no low lines in the title, and two colons only behind the adjective or later. -/
structure Clear (k : NameKey) : Prop where
  spaced : '_' ∉ k.title
  adjective : ∀ a ∈ k.qualifier, ¬[':', ':'] <:+: a.toList ∧ ¬[':'] <:+ a.toList
  base : k.qualifier = none → ¬[':', ':'] <:+: k.base.toList

variable {k k' : NameKey}

theorem Clear.splitFirst_title (h : k.Clear) :
    splitFirst [':', ':'] k.title = k.qualifier.map fun a => (a.toList, k.base.toList) := by
  unfold title
  cases hq : k.qualifier with
  | none => exact splitFirst_eq_none (h.base hq)
  | some a =>
    obtain ⟨hin, hend⟩ := h.adjective a hq
    exact splitFirst_pair hin hend

theorem Clear.eq_of_sharesTitle (h : k.Clear) (h' : k'.Clear) (hshared : k.SharesTitle k') : k = k' := by
  have htitle := underscored_inj h.spaced h'.spaced hshared
  have hsplit := h.splitFirst_title
  rw [htitle, h'.splitFirst_title] at hsplit
  obtain ⟨base, qualifier⟩ := k
  obtain ⟨base', qualifier'⟩ := k'
  cases qualifier <;> cases qualifier'
  · exact congrArg (NameKey.mk · none) (String.toList_inj.mp htitle)
  · cases hsplit
  · cases hsplit
  · obtain ⟨hadjective, hbase⟩ := Prod.mk.inj (Option.some.inj hsplit)
    cases String.toList_inj.mp hadjective
    cases String.toList_inj.mp hbase
    rfl

end NameKey

theorem TransitionId.compose_toList (k : NameKey) :
    (compose k.base k.qualifier).text.toList = "transition::".toList ++ underscored k.title := by
  unfold NameKey.title
  cases k.qualifier <;> simp [compose, part, underscored]

theorem TransitionId.ofName_eq_iff {name name' : String} {adjective adjective' : Option String} :
    ofName name adjective = ofName name' adjective' ↔
      (NameKey.ofName name adjective).SharesTitle (NameKey.ofName name' adjective') := by
  have htext (name : String) (adjective : Option String) : (ofName name adjective).text.toList =
      "transition::".toList ++ underscored (NameKey.ofName name adjective).title :=
    compose_toList (NameKey.ofName name adjective)
  rw [NameKey.SharesTitle, ← List.append_right_inj "transition::".toList, ← htext, ← htext]
  exact ⟨fun h => by rw [h], Id.eq_of_toList⟩

/-- The name and adjective, in any spelling. -/
def Transition.key (t : Transition) : NameKey := .ofName t.name t.adjective

def TransitionDraft.key (draft : TransitionDraft) : NameKey := .ofName draft.name draft.adjective

theorem TransitionDraft.key_transition (draft : TransitionDraft) : draft.transition.key = draft.key :=
  NameKey.ofName_collapse draft.name draft.adjective

namespace Graph

/-- Transitions are stored by ids that are made from their names and adjectives. -/
def TransitionsTitled (g : Graph) : Prop := ∀ id t, g.transitions.get? id = some t →
  t.id = id ∧ id = TransitionId.ofName t.name t.adjective

variable {g : Graph} {rejectCycles : Bool} {draft : TransitionDraft} {id : TransitionId} {t : Transition}

namespace TransitionsTitled

variable (h : g.TransitionsTitled)

include h

theorem putTransition (ht : t.id = TransitionId.ofName t.name t.adjective) :
    (g.putTransition t).TransitionsTitled := by
  intro id t' ht'
  rw [Graph.putTransition, Table.lookup_insert] at ht'
  split at ht'
  · rename_i hid
    cases ht'
    exact ⟨hid.symm, hid.trans ht⟩
  · exact h id t' ht'

theorem update (ht : g.transitions.get? id = some t) (update : TransitionUpdate) :
    (g.putTransition (update.apply t)).TransitionsTitled := by
  obtain ⟨hid, htitle⟩ := h id t ht
  exact h.putTransition (hid.trans htitle)

theorem erase (id : TransitionId) : TransitionsTitled { g with transitions := g.transitions.erase id } :=
  fun id' t ht => h id' t (stored_of_erase ht)

theorem contains_iff : g.transitions.contains draft.transition.id = true ↔
    ∃ t ∈ g.transitions.values, t.key.SharesTitle draft.key := by
  have hshared {id t} (ht : g.transitions.get? id = some t) :
      t.key.SharesTitle draft.key ↔ id = draft.transition.id := by
    rw [(h id t ht).2, ← draft.key_transition]
    exact TransitionId.ofName_eq_iff.symm
  rw [Table.contains_iff]
  constructor
  · rintro ⟨t, ht⟩
    exact ⟨t, Table.mem_values.mpr ⟨_, ht⟩, (hshared ht).mpr rfl⟩
  · rintro ⟨t, hmem, htitle⟩
    obtain ⟨id, ht⟩ := Table.mem_values.mp hmem
    exact ⟨t, (hshared ht).mp htitle ▸ ht⟩

end TransitionsTitled

theorem checkTransition_ne_duplicate (d : DuplicateError) :
    g.checkTransition rejectCycles t ≠ .error (.duplicate d) := by
  unfold checkTransition
  split
  · simp
  · split <;> simp

/-- A draft is a duplicate just where its id is taken. -/
theorem createTransition_duplicate_iff (hname : Text.collapse draft.name ≠ "") :
    (∃ d, g.createTransition rejectCycles draft = .error (.duplicate d)) ↔
      g.transitions.contains draft.transition.id = true := by
  cases hfree : g.transitions.contains draft.transition.id with
  | false =>
    rw [createTransition_eq hname hfree]
    refine iff_of_false ?_ (by simp)
    rintro ⟨d, hd⟩
    cases hcheck : g.checkTransition rejectCycles draft.transition with
    | ok u =>
      rw [hcheck] at hd
      cases hd
    | error e =>
      rw [hcheck] at hd
      cases hd
      exact checkTransition_ne_duplicate d hcheck
  | true =>
    have hempty : (Text.collapse draft.name).isEmpty = false := by
      rw [Bool.eq_false_iff]
      exact fun h => hname (String.isEmpty_iff.mp h)
    have hfree : g.transitions.contains (TransitionId.ofName (Text.collapse draft.name)
        (Text.collapse? draft.adjective)) = true := hfree
    refine iff_of_true ⟨⟨draft.transition.id.text, .graph⟩, ?_⟩ rfl
    simp only [createTransition, hempty, hfree, Bool.false_eq_true, if_false, if_true]
    rfl

end Graph

end Morphology
