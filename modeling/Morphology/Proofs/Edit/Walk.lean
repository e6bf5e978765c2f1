import Morphology.Proofs.Edit.Change

/-! Edits of references and edges as sequences of steps. What outlasts each of the steps outlasts the edits that are
made of them, refused half way or not. -/

namespace Morphology

open Edit

namespace Graph

/-- The loss of a reference or of an edge does not change that `I` holds. -/
structure OutlastsLoss (I : Graph → Prop) : Prop where
  unlink : ∀ {g g' k e left}, I g → g.unlink k e = .ok (left, g') → I g'
  removeEdge : ∀ {g g' e losers}, I g → g.removeEdge e = .ok (losers, g') → I g'

/-- Nor does a reference more, or a version of a node. -/
structure Outlasts (I : Graph → Prop) : Prop extends OutlastsLoss I where
  link : ∀ {g g' k e added}, I g → g.link k e = .ok (added, g') → I g'
  bump : ∀ {g} (o : NodeId), I g → I (g.modifyNode o Node.bump)

variable {I J : Graph → Prop} {g : Graph}

namespace OutlastsLoss

theorem and (hI : OutlastsLoss I) (hJ : OutlastsLoss J) : OutlastsLoss fun g => I g ∧ J g where
  unlink h hs := ⟨hI.unlink h.1 hs, hJ.unlink h.2 hs⟩
  removeEdge h hs := ⟨hI.removeEdge h.1 hs, hJ.removeEdge h.2 hs⟩

variable (hI : OutlastsLoss I) (h : I g)

include hI h

theorem leaves_removeEdge (e : EdgeRef) : Leaves (change (·.removeEdge e)) g I :=
  .change h fun _ _ hs => hI.removeEdge h hs

theorem leaves_purge (k : MorphId) (e : EdgeRef) : Leaves (purge k e) g I := by
  refine (Leaves.change h fun _ _ hs => hI.unlink h hs).bind fun left g₁ h₁ => ?_
  split
  · exact (hI.leaves_removeEdge h₁ e).bind fun _ _ h₂ => .pure h₂
  · exact .pure h₁

theorem leaves_purgeAll (k : MorphId) (es : List EdgeRef) : Leaves (purgeAll k es) g I := by
  induction es generalizing g with
  | nil => exact .pure h
  | cons e es ih =>
    exact (hI.leaves_purge h k e).bind fun _ _ h₁ => (ih h₁).bind fun _ _ h₂ => .pure h₂

theorem leaves_purgeMorphs (ks : List MorphId) : Leaves (purgeMorphs ks) g I := by
  induction ks generalizing g with
  | nil => exact .pure h
  | cons k ks ih =>
    refine .get_bind ((hI.leaves_purgeAll h k _).bind fun _ _ h₁ => ?_)
    exact (ih h₁).bind fun _ _ h₂ => .pure h₂

end OutlastsLoss

namespace Outlasts

theorem and (hI : Outlasts I) (hJ : Outlasts J) : Outlasts fun g => I g ∧ J g where
  toOutlastsLoss := hI.toOutlastsLoss.and hJ.toOutlastsLoss
  link h hs := ⟨hI.link h.1 hs, hJ.link h.2 hs⟩
  bump o h := ⟨hI.bump o h.1, hJ.bump o h.2⟩

variable (hI : Outlasts I) (h : I g)

include hI h

theorem leaves_touchNode (o : NodeId) : Leaves (touchNode o) g I := .modify (hI.bump o h)

theorem leaves_touchOwner (k : MorphId) : Leaves (touchOwner k) g I := by
  refine .modify ?_
  split
  · exact hI.bump _ h
  · exact h

theorem leaves_touchOwners (ks : List MorphId) : Leaves (touchOwners ks) g I := by
  induction ks generalizing g with
  | nil => exact .pure h
  | cons k ks ih => exact (hI.leaves_touchOwner h k).bind fun _ _ h₁ => ih h₁

theorem leaves_link (k : MorphId) (e : EdgeRef) : Leaves (change (·.link k e)) g I :=
  .change h fun _ _ hs => hI.link h hs

theorem leaves_linkAll (k : MorphId) (es : List EdgeRef) : Leaves (linkAll k es) g I := by
  induction es generalizing g with
  | nil => exact .pure h
  | cons e es ih => exact (hI.leaves_link h k e).bind fun _ _ h₁ => ih h₁

theorem leaves_removeEdges (es : List EdgeRef) : Leaves (removeEdges es) g I := by
  induction es generalizing g with
  | nil => exact .pure h
  | cons e es ih =>
    refine .get_bind ?_
    split
    · refine (hI.leaves_removeEdge h e).bind fun losers _ h₁ => ?_
      refine (hI.leaves_touchOwners h₁ losers).bind fun _ _ h₂ => ?_
      exact (ih h₂).bind fun _ _ h₃ => .pure h₃
    · exact ih h

theorem leaves_deleteEdge (e : EdgeRef) : Leaves (deleteEdge e) g I := by
  refine .demand_bind h fun _ _ => ?_
  refine (hI.leaves_removeEdge h e).bind fun losers _ h₁ => ?_
  exact (hI.leaves_touchOwners h₁ losers).bind fun _ _ h₂ => .pure h₂

theorem leaves_deleteEdges (es : List EdgeRef) : Leaves (deleteEdges es) g I := by
  induction es generalizing g with
  | nil => exact .pure h
  | cons e es ih => exact (hI.leaves_deleteEdge h e).bind fun _ _ h₁ => ih h₁

theorem leaves_copyRef (e : EdgeRef) (source target : MorphId) : Leaves (copyRef e source target) g I := by
  refine .reads_bind (reads_requireReference source e) h fun _ _ => ?_
  refine .demand_bind h fun m _ => ?_
  refine .reads_bind (reads_requireSameOwner m e) h fun _ _ => ?_
  refine (hI.leaves_link h target e).bind fun added _ h => ?_
  split
  · exact (hI.leaves_touchOwner h target).bind fun _ _ h => .pure h
  · exact .pure h

theorem leaves_moveRef (e : EdgeRef) (source target : MorphId) : Leaves (moveRef e source target) g I := by
  refine .reads_bind (reads_requireReference source e) h fun _ _ => ?_
  refine .demand_bind h fun m _ => ?_
  refine .reads_bind (reads_requireSameOwner m e) h fun _ _ => ?_
  split
  · exact .pure h
  · refine (hI.leaves_link h target e).bind fun _ _ h => ?_
    refine (Leaves.change h fun _ _ hs => hI.unlink h hs).bind fun _ _ h => ?_
    exact hI.leaves_touchOwner h target

theorem leaves_unlistRef (e : EdgeRef) (k : MorphId) : Leaves (unlistRef e k) g I := by
  refine .reads_bind (reads_requireReference k e) h fun _ _ => ?_
  refine (hI.leaves_purge h k e).bind fun _ _ h => ?_
  exact (hI.leaves_touchOwner h k).bind fun _ _ h => .pure h

theorem leaves_upsertRelation (k : MorphId) {r : Relation}
    (hput : g.nodes.contains r.source = true → g.nodes.contains r.target = true → I (g.withRelation r)) :
    Leaves (upsertRelation k r) g I := by
  refine .reads_bind (reads_requireOwnedBy k r.source) h fun _ _ => .demand_bind h fun _ _ => ?_
  refine (Leaves.change h fun _ _ hs => ?_).bind fun _ _ h => ?_
  · obtain ⟨hsource, htarget, -, rfl⟩ := putRelation_eq_ok hs
    exact hput hsource htarget
  · refine (hI.leaves_link h k _).bind fun _ _ h => ?_
    exact (hI.leaves_touchNode h r.source).bind fun _ _ h => .pure h

theorem leaves_upsertAttribute (k : MorphId) {a : Attribute}
    (hput : g.nodes.contains a.owner = true → I (g.withAttribute a)) : Leaves (upsertAttribute k a) g I := by
  refine .reads_bind (reads_requireOwnedBy k a.owner) h fun _ _ => ?_
  refine (Leaves.change h fun _ _ hs => ?_).bind fun _ _ h => ?_
  · obtain ⟨howner, -, rfl⟩ := putAttribute_eq_ok hs
    exact hput howner
  · refine (hI.leaves_link h k _).bind fun _ _ h => ?_
    exact (hI.leaves_touchNode h a.owner).bind fun _ _ h => .pure h

theorem leaves_updateRelation {id : RelationId} {modifiers : RelationModifiers}
    (hset : ∀ r, g.relations.get? id = some r →
      I { g with relations := g.relations.insert id { r with modifiers := modifiers } }) :
    Leaves (updateRelation id modifiers) g I := by
  refine .get_bind ?_
  split
  · exact .refuse h
  · rename_i r hr
    exact .set_bind (hI.leaves_touchNode (hset r hr) r.source)

theorem leaves_updateAttribute {id : AttributeId} {value : String} {typed : Option Value}
    {modifiers : AttributeModifiers}
    (hset : ∀ a, g.attributes.get? id = some a → I { g with
      attributes := g.attributes.insert id { a with value := value, typed := typed, modifiers := modifiers } }) :
    Leaves (updateAttribute id value typed modifiers) g I := by
  refine .get_bind ?_
  split
  · exact .refuse h
  · rename_i a ha
    exact .set_bind (hI.leaves_touchNode (hset a ha) a.owner)

end Outlasts

end Graph

end Morphology
