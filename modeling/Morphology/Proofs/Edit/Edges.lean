import Morphology.Edit.Edges
import Morphology.Proofs.Edit.References

/-! Writing edges. An edge that is put in place is linked at once, so no edge is ever left without a reference;
edges whose ids are composed of their content keep the graph sound. -/

namespace Morphology.Edit

open Morphology.Graph

variable {g : Graph}

theorem reads_requireOwnedBy (k : MorphId) (o : NodeId) :
    Reads (requireOwnedBy k o) g fun _ => ∃ m, g.morphs.get? k = some m ∧ m.owner = o := by
  refine (Reads.demand _).bind fun m hm => ?_
  split
  · rename_i ho
    exact Reads.pure ⟨m, requireMorph_eq_ok.mp hm, ho⟩
  · exact .refuse _

theorem succeeds_requireOwnedBy {k : MorphId} {m : Morph} (hm : g.morphs.get? k = some m) :
    Succeeds (requireOwnedBy k m.owner) g fun _ g' => g' = g := by
  refine .demand_bind (requireMorph_eq_ok.mpr hm) ?_
  rw [if_pos rfl]
  exact .pure rfl

variable (h : g.Sound)

include h

/-- An edge that was just put into a sound graph can be linked; if putting it kept the graph coherent, linking it
makes the graph sound again. -/
theorem succeeds_link_put {α : Type} {g₀ : Graph} {k : MorphId} {m : Morph} {e : EdgeRef} {o : NodeId} {c : Prop}
    {answer : Bool → α} (hm : g.morphs.get? k = some m) (hmorphs : g₀.morphs = g.morphs)
    (howner : g₀.edgeOwner e = some m.owner) (hother : ∀ e', e' ≠ e → g₀.edgeOwner e' = g.edgeOwner e')
    (hc : c → g₀.Coherent) :
    Succeeds (do
      let linked ← change (·.link k e)
      touchNode o
      return answer linked) g₀ fun _ g' => c → g'.Sound := by
  rw [← hmorphs] at hm
  obtain ⟨added, g₁, hrun, hl, hr, -⟩ := Graph.link_eq hm (hasEdge_of_owner howner)
  have hsound : c → g₁.Sound := by
    intro hyp
    obtain ⟨_, _, hrun', hc₁, -, -⟩ := (hc hyp).link_eq hm howner
    rw [hrun] at hrun'
    cases hrun'
    refine ⟨hc₁, fun e' he => ?_⟩
    by_cases hne : e' = e
    · exact ⟨k, hne ▸ hr⟩
    · rw [hl.hasEdge, hasEdge_iff, hother e' hne, ← hasEdge_iff] at he
      obtain ⟨l, hl'⟩ := h.covered e' he
      refine ⟨l, hl.refers ?_⟩
      unfold Refers
      rw [hmorphs]
      exact hl'
  refine .change_bind hrun ?_
  refine Succeeds.bind (P := fun _ g' => c → g'.Sound) (.modify fun hyp => ?_) fun _ g₂ h₂ => .pure h₂
  exact (hsound hyp).modifyNode fun n _ => .bump n

theorem allOrNothing_upsertRelation (k : MorphId) (r : Relation) :
    AllOrNothing (upsertRelation k r) g fun _ g' => r.IsComposed → g'.Sound := by
  refine (reads_requireOwnedBy k r.source).bind fun _ ⟨m, hm, ho⟩ => ?_
  refine (Reads.demand _).bind fun n' hn' => Succeeds.allOrNothing ?_
  obtain ⟨n, hn, -⟩ := h.listed hm
  have hs : g.nodes.contains r.source = true := Table.contains_iff.mpr ⟨n, ho ▸ hn⟩
  have ht : g.nodes.contains r.target = true := Table.contains_iff.mpr ⟨n', requireNode_eq_ok.mp hn'⟩
  refine .change_bind (putRelation_eq hs ht) ?_
  refine succeeds_link_put h hm rfl ?_ (fun e' hne => ?_) fun hc => h.withRelation hc hs ht
  · rw [edgeOwner_withRelation, if_pos rfl, ho]
  · rw [edgeOwner_withRelation, if_neg hne]

theorem allOrNothing_upsertAttribute (k : MorphId) (a : Attribute) :
    AllOrNothing (upsertAttribute k a) g fun _ g' => a.IsComposed → g'.Sound := by
  refine (reads_requireOwnedBy k a.owner).bind fun _ ⟨m, hm, ho⟩ => Succeeds.allOrNothing ?_
  obtain ⟨n, hn, -⟩ := h.listed hm
  have hc : g.nodes.contains a.owner = true := Table.contains_iff.mpr ⟨n, ho ▸ hn⟩
  refine .change_bind (putAttribute_eq hc) ?_
  refine succeeds_link_put h hm rfl ?_ (fun e' hne => ?_) fun hcomposed => h.withAttribute hcomposed hc
  · rw [edgeOwner_withAttribute, if_pos rfl, ho]
  · rw [edgeOwner_withAttribute, if_neg hne]

theorem allOrNothing_updateRelation (id : RelationId) (modifiers : RelationModifiers) :
    AllOrNothing (updateRelation id modifiers) g fun _ g' => g'.Sound := by
  refine .get_bind ?_
  split
  · exact .refuse _
  · rename_i r hr
    have hsame (k : RelationId) :
        ((g.relations.insert id { r with modifiers := modifiers }).get? k).map Relation.frame =
          (g.relations.get? k).map Relation.frame := by
      rw [Table.lookup_insert]
      split
      · rename_i hk
        rw [hk, hr]
        rfl
      · rfl
    have h₁ := h.withEdges hsame fun k : AttributeId => rfl
    refine Succeeds.allOrNothing (.set_bind ?_)
    exact (succeeds_touchNode h₁ r.source).mono fun _ _ ⟨h₂, _⟩ => h₂

theorem allOrNothing_updateAttribute (id : AttributeId) (value : String) (typed : Option Value)
    (modifiers : AttributeModifiers) :
    AllOrNothing (updateAttribute id value typed modifiers) g fun _ g' => g'.Sound := by
  refine .get_bind ?_
  split
  · exact .refuse _
  · rename_i a ha
    have hsame (k : AttributeId) :
        ((g.attributes.insert id { a with value := value, typed := typed, modifiers := modifiers }).get? k).map
          Attribute.frame = (g.attributes.get? k).map Attribute.frame := by
      rw [Table.lookup_insert]
      split
      · rename_i hk
        rw [hk, ha]
        rfl
      · rfl
    have h₁ := h.withEdges (fun k : RelationId => rfl) hsame
    refine Succeeds.allOrNothing (.set_bind ?_)
    exact (succeeds_touchNode h₁ a.owner).mono fun _ _ ⟨h₂, _⟩ => h₂

end Morphology.Edit
