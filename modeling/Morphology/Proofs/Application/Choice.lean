import Morphology.Proofs.Edit.Choice

/-! Documents overlook the choices of active morphs: whatever is chosen, the same report is given and the same is
written. -/

namespace Morphology

theorem overlooks_applyEach {α : Type} {forget : Graph → Graph} {step : α → Graph → Report × Graph}
    (hstep : ∀ item, StepOverlooks forget (step item)) (items : List α) :
    StepOverlooks forget (applyEach step items) := by
  intro g g' hgg
  induction items generalizing g g' with
  | nil => exact congrArg (Prod.mk _) hgg
  | cons item items ih =>
    obtain ⟨hreport, hgraph⟩ := Prod.ext_iff.mp (hstep item g g' hgg)
    obtain ⟨hreports, hgraphs⟩ := Prod.ext_iff.mp (ih _ _ hgraph)
    exact Prod.ext (congrArg₂ (· ++ ·) hreport hreports) hgraphs

namespace Graph

open Edit

variable (schema : Schema)

theorem overlooks_resolve (name : String) (qualifier : Option String) :
    StepOverlooks unchosen fun g => g.resolve name qualifier :=
  .intro fun g => g.resolve_unchosen name qualifier

theorem overlooks_writeEdge (k : MorphId) (edge : GroundedEdge) : Overlooks unchosen (writeEdge k edge) := by
  cases edge with
  | attr a => exact overlooks_upsertAttribute k _
  | relation r =>
    have htarget : StepOverlooks unchosen fun g => resolveTarget g r.target := by
      cases r.target with
      | resolved o => exact .intro fun _ => rfl
      | pending name qualifier => exact overlooks_resolve name qualifier
    exact (Overlooks.modifyGet htarget).bind fun _ => overlooks_upsertRelation k _

theorem overlooks_applyStatement (label : String) (o : NodeId) (k : MorphId) (line : Nat × Statement) :
    StepOverlooks unchosen (applyStatement schema label o k line) := by
  intro g g' hgg
  have hgrounding : Grounding.ofStatement schema g o line.2 line.1 = Grounding.ofStatement schema g' o line.2 line.1 := by
    rw [← ofStatement_unchosen, hgg, ofStatement_unchosen]
  simp only [applyStatement, hgrounding]
  split
  · have hwritten := overlooks_writeEdge k (Grounding.ofStatement schema g' o line.2 line.1).edge
    rcases hwritten.ends_alike hgg with ⟨_, _, _, hx, hx', hgraph⟩ | ⟨_, _, _, hx, hx', hgraph⟩
    · rw [hx, hx']
      exact congrArg (Prod.mk _) hgraph
    · rw [hx, hx']
      exact congrArg (Prod.mk _) hgraph
  · exact congrArg (Prod.mk _) hgg

theorem overlooks_fenceMorph (o : NodeId) (label : Option String) : Overlooks unchosen (fenceMorph o label) := by
  refine .get_bind (fun g => by rw [morphNamed_unchosen]) fun g => ?_
  split
  · exact .pure _
  · exact overlooks_addMorph o label none

theorem overlooks_applyFence (label : String) (o : NodeId) (fence : Fence) :
    StepOverlooks unchosen (applyFence schema label o fence) := by
  intro g g' hgg
  unfold applyFence
  rcases (overlooks_fenceMorph o fence.label).ends_alike hgg with ⟨k, _, _, hx, hx', hgraph⟩ | ⟨_, _, _, hx, hx', hgraph⟩
  · rw [hx, hx']
    exact overlooks_applyEach (overlooks_applyStatement schema label o k) fence.statements _ _ hgraph
  · rw [hx, hx']
    exact congrArg (Prod.mk _) hgraph

theorem overlooks_applyBlock (block : Block) : StepOverlooks unchosen (applyBlock schema block) := by
  intro g g' hgg
  have hlabel (g : Graph) (o : NodeId) :
      (g.unchosen.nodes.get? o).map (·.displayName) = (g.nodes.get? o).map (·.displayName) := by
    rw [lookup_unchosen, Option.map_map]
    rfl
  have hresolved : Prod.map id unchosen (g.resolve block.name block.qualifier) =
      Prod.map id unchosen (g'.resolve block.name block.qualifier) := overlooks_resolve _ _ g g' hgg
  simp only [applyBlock]
  generalize g.resolve block.name block.qualifier = p, g'.resolve block.name block.qualifier = p' at hresolved
  obtain ⟨hnode, hgraph⟩ := Prod.ext_iff.mp hresolved
  replace hnode : p.1 = p'.1 := hnode
  replace hgraph : p.2.unchosen = p'.2.unchosen := hgraph
  rw [hnode, ← hlabel p.2, hgraph, hlabel p'.2]
  have hfences (label : String) :=
    Prod.ext_iff.mp (overlooks_applyEach (overlooks_applyFence schema label p'.1) block.fences p.2 p'.2 hgraph)
  exact Prod.ext (congrArg (Report.append _) (hfences _).1) (hfences _).2

theorem overlooks_applyDocument (document : Document) : StepOverlooks unchosen (applyDocument schema document) :=
  overlooks_applyEach (overlooks_applyBlock schema) document.blocks

end Graph

end Morphology
