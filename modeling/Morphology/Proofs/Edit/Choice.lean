import Morphology.Edit.Change
import Morphology.Proofs.Graph.Choice
import Morphology.Proofs.Overlooking

/-! Edits overlook the choices of active morphs. None of them is refused for a choice, answers with one or lets one
into anything else that it writes; to choose is to change nothing else. -/

namespace Morphology

open Morphology.Graph

namespace Edit

theorem demandNode_bind {β : Type} {o : NodeId} {f : Node → Edit β} (hread : ∀ n, f n.unchosen = f n)
    (hf : ∀ n, Overlooks unchosen (f n)) : Overlooks unchosen (demand (·.requireNode o) >>= f) :=
  .demand_part_bind (fun g => g.requireNode_unchosen o) hread hf

theorem overlooks_touchNode (o : NodeId) : Overlooks unchosen (touchNode o) :=
  .modify fun g => g.unchosen_modifyNode o fun _ => rfl

theorem overlooks_touchOwner (k : MorphId) : Overlooks unchosen (touchOwner k) := by
  refine .modify fun g => ?_
  simp only [unchosen_morphs]
  cases g.morphs.get? k with
  | none => rfl
  | some m => exact g.unchosen_modifyNode m.owner fun _ => rfl

theorem overlooks_touchOwners (ks : List MorphId) : Overlooks unchosen (touchOwners ks) := by
  induction ks with
  | nil => exact .pure ()
  | cons k ks ih => exact (overlooks_touchOwner k).bind fun _ => ih

theorem overlooks_requireReference (k : MorphId) (e : EdgeRef) : Overlooks unchosen (requireReference k e) := by
  refine .demand_bind (fun _ => rfl) fun _ => .demand_bind (fun _ => rfl) fun m => ?_
  split
  · exact .pure m
  · exact .refuse _

theorem overlooks_requireSameOwner (m : Morph) (e : EdgeRef) : Overlooks unchosen (requireSameOwner m e) := by
  refine .get_bind (fun _ => rfl) fun g => ?_
  split
  · split
    · exact .pure ()
    · exact .refuse _
  · exact .refuse _

theorem overlooks_requireFreeMorph (k : MorphId) : Overlooks unchosen (requireFreeMorph k) := by
  refine .get_bind (fun _ => rfl) fun g => ?_
  split
  · exact .refuse _
  · exact .pure ()

theorem overlooks_requireFreeNode (o : NodeId) : Overlooks unchosen (requireFreeNode o) := by
  refine .get_bind (fun _ => rfl) fun g => ?_
  split
  · exact .refuse _
  · exact .pure ()

section References

theorem overlooks_purge (k : MorphId) (e : EdgeRef) : Overlooks unchosen (purge k e) := by
  refine .change_bind (fun g => g.unlink_unchosen k e) fun left => ?_
  split
  · exact .change_bind (fun g => g.removeEdge_unchosen e) fun _ => .pure true
  · exact .pure false

theorem overlooks_purgeAll (k : MorphId) (es : List EdgeRef) : Overlooks unchosen (purgeAll k es) := by
  induction es with
  | nil => exact .pure []
  | cons e es ih => exact (overlooks_purge k e).bind fun _ => ih.bind fun _ => .pure _

theorem overlooks_copyRef (e : EdgeRef) (k l : MorphId) : Overlooks unchosen (copyRef e k l) := by
  refine (overlooks_requireReference k e).bind fun _ => .demand_bind (fun _ => rfl) fun m => ?_
  refine (overlooks_requireSameOwner m e).bind fun _ => .change_bind (fun g => g.link_unchosen l e) fun added => ?_
  split
  · exact (overlooks_touchOwner l).bind fun _ => .pure added
  · exact .pure added

theorem overlooks_moveRef (e : EdgeRef) (k l : MorphId) : Overlooks unchosen (moveRef e k l) := by
  refine (overlooks_requireReference k e).bind fun _ => .demand_bind (fun _ => rfl) fun m => ?_
  refine (overlooks_requireSameOwner m e).bind fun _ => ?_
  split
  · exact .pure ()
  · refine .change_bind (fun g => g.link_unchosen l e) fun _ => ?_
    exact .change_bind (fun g => g.unlink_unchosen k e) fun _ => overlooks_touchOwner l

theorem overlooks_unlistRef (e : EdgeRef) (k : MorphId) : Overlooks unchosen (unlistRef e k) :=
  (overlooks_requireReference k e).bind fun _ => (overlooks_purge k e).bind fun _ =>
    (overlooks_touchOwner k).bind fun _ => .pure _

theorem overlooks_deleteEdge (e : EdgeRef) : Overlooks unchosen (deleteEdge e) :=
  .demand_bind (fun _ => rfl) fun _ => .change_bind (fun g => g.removeEdge_unchosen e) fun losers =>
    (overlooks_touchOwners losers).bind fun _ => .pure _

theorem overlooks_deleteEdges (es : List EdgeRef) : Overlooks unchosen (deleteEdges es) := by
  induction es with
  | nil => exact .pure ()
  | cons e es ih => exact (overlooks_deleteEdge e).bind fun _ => ih

end References

section Edges

theorem overlooks_requireOwnedBy (k : MorphId) (o : NodeId) : Overlooks unchosen (requireOwnedBy k o) := by
  refine .demand_bind (fun _ => rfl) fun m => ?_
  split
  · exact .pure ()
  · exact .refuse _

theorem overlooks_upsertRelation (k : MorphId) (r : Relation) : Overlooks unchosen (upsertRelation k r) :=
  (overlooks_requireOwnedBy k r.source).bind fun _ => demandNode_bind (fun _ => rfl) fun _ =>
    .change_bind (fun g => g.putRelation_unchosen r) fun _ => .change_bind (fun g => g.link_unchosen k _) fun _ =>
      (overlooks_touchNode r.source).bind fun _ => .pure _

theorem overlooks_upsertAttribute (k : MorphId) (a : Attribute) : Overlooks unchosen (upsertAttribute k a) :=
  (overlooks_requireOwnedBy k a.owner).bind fun _ =>
    .change_bind (fun g => g.putAttribute_unchosen a) fun _ => .change_bind (fun g => g.link_unchosen k _) fun _ =>
      (overlooks_touchNode a.owner).bind fun _ => .pure _

theorem overlooks_updateRelation (id : RelationId) (modifiers : RelationModifiers) :
    Overlooks unchosen (updateRelation id modifiers) := by
  refine .read_bind fun g g' hgg => ?_
  have hrelations : g.unchosen.relations = g'.unchosen.relations := by rw [hgg]
  rw [show g.relations = g'.relations from hrelations]
  cases g'.relations.get? id with
  | none => exact Overlooks.refuse _ g g' hgg
  | some r =>
    let written := g'.relations.insert id { r with modifiers := modifiers }
    exact overlooks_touchNode r.source _ _ (congrArg (fun g : Graph => { g with relations := written }) hgg)

theorem overlooks_updateAttribute (id : AttributeId) (value : String) (typed : Option Value)
    (modifiers : AttributeModifiers) : Overlooks unchosen (updateAttribute id value typed modifiers) := by
  refine .read_bind fun g g' hgg => ?_
  have hattributes : g.unchosen.attributes = g'.unchosen.attributes := by rw [hgg]
  rw [show g.attributes = g'.attributes from hattributes]
  cases g'.attributes.get? id with
  | none => exact Overlooks.refuse _ g g' hgg
  | some a =>
    let written := g'.attributes.insert id { a with value := value, typed := typed, modifiers := modifiers }
    exact overlooks_touchNode a.owner _ _ (congrArg (fun g : Graph => { g with attributes := written }) hgg)

end Edges

section Morphs

theorem overlooks_seedRefs (o : NodeId) (seed : Option MorphId) : Overlooks unchosen (seedRefs o seed) := by
  cases seed with
  | none => exact .pure []
  | some k =>
    refine .demand_bind (fun _ => rfl) fun m => ?_
    split
    · exact .pure m.refs
    · exact .refuse _

theorem overlooks_linkAll (k : MorphId) (es : List EdgeRef) : Overlooks unchosen (linkAll k es) := by
  induction es with
  | nil => exact .pure ()
  | cons e es ih => exact .change_bind (fun g => g.link_unchosen k e) fun _ => ih

theorem overlooks_addMorph (o : NodeId) (name : Option String) (seed : Option MorphId) :
    Overlooks unchosen (addMorph o name seed) := by
  have hcreated (name : Option String) : Overlooks unchosen (do
      let refs ← seedRefs o seed
      let id ← change (·.createMorph o name)
      linkAll id refs
      touchNode o
      return id) :=
    (overlooks_seedRefs o seed).bind fun refs => .change_bind (fun g => g.createMorph_unchosen o name) fun id =>
      (overlooks_linkAll id refs).bind fun _ => (overlooks_touchNode o).bind fun _ => .pure id
  refine demandNode_bind (fun _ => rfl) fun n => .get_bind (fun _ => rfl) fun g => ?_
  split
  · split
    · exact .throw _
    · exact hcreated _
  · exact hcreated _

theorem overlooks_deleteMorph (k : MorphId) : Overlooks unchosen (deleteMorph k) := by
  refine .demand_bind (fun _ => rfl) fun m => demandNode_bind (fun _ => rfl) fun n => ?_
  split
  · exact .throw _
  · refine (overlooks_requireFreeMorph k).bind fun _ => (overlooks_purgeAll k m.refs).bind fun _ => ?_
    exact .change_bind (fun g => g.removeMorph_unchosen k) fun _ =>
      (overlooks_touchNode m.owner).bind fun _ => .pure _

/-- Whether a choice goes through depends on no other choice. -/
theorem overlooks_switchActive (o : NodeId) (k : MorphId) : Overlooks unchosen (switchActive o k) := by
  refine demandNode_bind (fun _ => rfl) fun n => ?_
  split
  · exact .modify_forgotten fun g => g.unchosen_choose o k
  · refine .get_bind (fun _ => rfl) fun g => ?_
    split
    · exact .refuse _
    · exact .refuse _

theorem leaves_switchActive (g : Graph) (o : NodeId) (k : MorphId) :
    Leaves (switchActive o k) g fun g' => g'.unchosen = g.unchosen := by
  refine .demand_bind rfl fun n _ => ?_
  split
  · exact .modify (g.unchosen_choose o k)
  · refine .get_bind ?_
    split
    · exact .refuse rfl
    · exact .refuse rfl

end Morphs

section Nodes

theorem overlooks_updateNode (o : NodeId) (update : NodeUpdate) : Overlooks unchosen (updateNode o update) :=
  demandNode_bind (fun _ => rfl) fun _ =>
    .modify fun g => g.unchosen_modifyNode o fun _ => rfl

theorem overlooks_purgeMorphs (ks : List MorphId) : Overlooks unchosen (purgeMorphs ks) := by
  induction ks with
  | nil => exact .pure []
  | cons k ks ih =>
    exact .get_bind (fun _ => rfl) fun g => (overlooks_purgeAll k _).bind fun _ => ih.bind fun _ => .pure _

theorem overlooks_removeEdges (es : List EdgeRef) : Overlooks unchosen (removeEdges es) := by
  induction es with
  | nil => exact .pure []
  | cons e es ih =>
    refine .get_bind (fun g => by cases e <;> rfl) fun g => ?_
    split
    · exact .change_bind (fun g => g.removeEdge_unchosen e) fun losers =>
        (overlooks_touchOwners losers).bind fun _ => ih.bind fun _ => .pure _
    · exact ih

theorem overlooks_deleteNode (o : NodeId) : Overlooks unchosen (deleteNode o) := by
  refine demandNode_bind (fun _ => rfl) fun n => (overlooks_requireFreeNode o).bind fun _ => ?_
  refine (overlooks_purgeMorphs n.morphs).bind fun _ => .get_bind (fun _ => rfl) fun g => ?_
  refine (overlooks_removeEdges (edgesAt g o)).bind fun _ => ?_
  exact .change_part_bind (fun g => g.removeNode_unchosen o) (fun _ => rfl) fun _ => .pure _

end Nodes

end Edit

namespace Guard

variable (guard : Option Guard)

theorem overlooks_checkNode (o : NodeId) : Overlooks unchosen (checkNode guard o) := by
  unfold checkNode
  split
  · exact .pure ()
  · split
    · refine Edit.demandNode_bind (fun _ => rfl) fun n => ?_
      split
      · exact .pure ()
      · exact .throw _
    · exact .pure ()

theorem overlooks_checkMorph (k : MorphId) : Overlooks unchosen (checkMorph guard k) :=
  .demand_bind (fun _ => rfl) fun m => overlooks_checkNode guard m.owner

theorem overlooks_checkEdge (e : EdgeRef) : Overlooks unchosen (checkEdge guard e) := by
  refine .demand_bind (fun _ => rfl) fun _ => .get_bind (fun _ => rfl) fun g => ?_
  split
  · exact overlooks_checkNode guard _
  · exact .pure ()

theorem overlooks_check (c : Change) : Overlooks unchosen (check guard c) := by
  cases c with
  | addMorph node _ _ => exact overlooks_checkNode guard node
  | switchActive _ _ => exact .pure ()
  | deleteMorph morph => exact overlooks_checkMorph guard morph
  | copyRef _ _ target => exact overlooks_checkMorph guard target
  | moveRef _ _ target => exact overlooks_checkMorph guard target
  | unlistRef _ morph => exact overlooks_checkMorph guard morph
  | deleteEdge edge => exact overlooks_checkEdge guard edge
  | upsertRelation _ relation => exact overlooks_checkNode guard relation.source
  | upsertAttribute _ a => exact overlooks_checkNode guard a.owner
  | updateRelation id _ => exact overlooks_checkEdge guard (.relation id)
  | updateAttribute id _ _ _ => exact overlooks_checkEdge guard (.attr id)
  | updateNode node _ => exact overlooks_checkNode guard node
  | deleteNode node => exact overlooks_checkNode guard node

end Guard

namespace Change

open Edit

theorem overlooks_perform (c : Change) : Overlooks unchosen c.perform := by
  cases c with
  | addMorph node name seed => exact (overlooks_addMorph node name seed).map
  | switchActive node morph => exact (overlooks_switchActive node morph).bind fun _ => .pure _
  | deleteMorph morph => exact (overlooks_deleteMorph morph).map
  | copyRef edge source target => exact (overlooks_copyRef edge source target).map
  | moveRef edge source target => exact (overlooks_moveRef edge source target).bind fun _ => .pure _
  | unlistRef edge morph => exact (overlooks_unlistRef edge morph).map
  | deleteEdge edge => exact (overlooks_deleteEdge edge).map
  | upsertRelation morph relation => exact (overlooks_upsertRelation morph relation).map
  | upsertAttribute morph a => exact (overlooks_upsertAttribute morph a).map
  | updateRelation id modifiers => exact (overlooks_updateRelation id modifiers).bind fun _ => .pure _
  | updateAttribute id value typed modifiers =>
    exact (overlooks_updateAttribute id value typed modifiers).bind fun _ => .pure _
  | updateNode node update => exact (overlooks_updateNode node update).bind fun _ => .pure _
  | deleteNode node => exact (overlooks_deleteNode node).map

theorem overlooks_run (guard : Option Guard) (c : Change) : Overlooks unchosen (c.run guard) :=
  (Guard.overlooks_check guard c).bind fun _ => c.overlooks_perform

end Change

end Morphology
