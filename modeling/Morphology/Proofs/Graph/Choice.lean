import Morphology.Application
import Morphology.Graph.Export
import Morphology.Proofs.Graph.Frame
import Morphology.Session.Types
import Morphology.Transition.Basic

/-! Graphs without the choices of active morphs. Whatever is read of a graph but for the active morphs themselves is the
same without them, and every elementary change of the graph is the same change of what is left. -/

namespace Morphology

def Node.unchosen (n : Node) : Node := { n with active := none }

namespace Graph

/-- The graph with no active morph chosen. -/
def unchosen (g : Graph) : Graph := { g with nodes := g.nodes.mapValues Node.unchosen }

variable (g : Graph)

theorem unchosen_morphs : g.unchosen.morphs = g.morphs := rfl

theorem unchosen_relations : g.unchosen.relations = g.relations := rfl

theorem unchosen_attributes : g.unchosen.attributes = g.attributes := rfl

theorem unchosen_transitions : g.unchosen.transitions = g.transitions := rfl

theorem unchosen_names : g.unchosen.names = g.names := rfl

theorem unchosen_values : g.unchosen.nodes.values = g.nodes.values.map Node.unchosen := Table.values_mapValues

section Questions

theorem lookup_unchosen (o : NodeId) : g.unchosen.nodes.get? o = (g.nodes.get? o).map Node.unchosen :=
  Table.lookup_mapValues

theorem requireNode_unchosen (o : NodeId) : g.unchosen.requireNode o = (g.requireNode o).map Node.unchosen := by
  unfold requireNode
  rw [lookup_unchosen]
  cases g.nodes.get? o <;> rfl

theorem morphNamed_unchosen (o : NodeId) (name : Option String) :
    g.unchosen.morphNamed o name = g.morphNamed o name := by
  unfold morphNamed
  rw [lookup_unchosen]
  cases g.nodes.get? o <;> rfl

theorem nodesOfType_unchosen (name : String) :
    g.unchosen.nodesOfType name = (g.nodesOfType name).map Node.unchosen := by
  unfold nodesOfType
  rw [unchosen_values, List.filter_map]
  rfl

theorem edgesOfType_unchosen (kind : TypeKind) (name : String) :
    g.unchosen.edgesOfType kind name = g.edgesOfType kind name := by
  cases kind <;> rfl

theorem checkState_unchosen (pair : StatePair) : g.unchosen.checkState pair = g.checkState pair := by
  unfold checkState
  rw [lookup_unchosen]
  cases g.nodes.get? pair.node <;> rfl

theorem checkStates_unchosen (pairs : List StatePair) : g.unchosen.checkStates pairs = g.checkStates pairs := by
  induction pairs with
  | nil => rfl
  | cons pair pairs ih => rw [checkStates, checkStates, checkState_unchosen, ih]

theorem checkTransition_unchosen (rejectCycles : Bool) (t : Transition) :
    g.unchosen.checkTransition rejectCycles t = g.checkTransition rejectCycles t := by
  unfold checkTransition
  rw [checkStates_unchosen]
  rfl

theorem ofStatement_unchosen (schema : Schema) (o : NodeId) (s : Statement) (line : Nat) :
    Grounding.ofStatement schema g.unchosen o s line = Grounding.ofStatement schema g o s line := by
  have htype (o : NodeId) : Grounding.nodeTypeOf g.unchosen o = Grounding.nodeTypeOf g o := by
    unfold Grounding.nodeTypeOf
    rw [lookup_unchosen]
    cases g.nodes.get? o <;> rfl
  have htarget (r : RelationStatement) : Grounding.targetOf g.unchosen r = Grounding.targetOf g r := by
    unfold Grounding.targetOf lookup
    rw [unchosen_names]
    cases g.names.lookup (Text.collapse r.targetName) (Text.collapse? r.targetQualifier) with
    | none => rfl
    | some o =>
      rw [Option.bind_some, Option.bind_some, lookup_unchosen]
      cases g.nodes.get? o <;> rfl
  have htargetType (t : Target) : Grounding.targetType g.unchosen t = Grounding.targetType g t := by
    cases t with
    | resolved o => exact htype o
    | pending _ _ => rfl
  cases s with
  | attr a => rfl
  | relation r =>
    simp only [Grounding.ofStatement, Grounding.ofRelation, htype, htarget, htargetType]

/-- A document has no choices in it. -/
theorem toDocument_unchosen : g.unchosen.toDocument = g.toDocument := by
  have hrelation (r : Relation) : g.unchosen.relationStatement r = g.relationStatement r := by
    simp only [relationStatement, lookup_unchosen]
    cases g.nodes.get? r.target <;> rfl
  have hblock (n : Node) : g.unchosen.nodeBlock n.unchosen = g.nodeBlock n := by
    simp only [nodeBlock, morphFence, statementsOf, funext hrelation]
    rfl
  unfold toDocument
  rw [unchosen_values, List.map_map]
  exact congrArg (Document.mk _) (List.map_congr_left fun n _ => hblock n)

end Questions

section Changes

theorem unchosen_modifyNode (o : NodeId) {f : Node → Node} (hf : ∀ n, (f n).unchosen = f n.unchosen) :
    (g.modifyNode o f).unchosen = g.unchosen.modifyNode o f :=
  congrArg (fun nodes => { g with nodes := nodes }) (Table.mapValues_modify hf)

/-- A choice leaves nothing else behind. -/
theorem unchosen_choose (o : NodeId) (k : MorphId) :
    (g.modifyNode o fun n => { n with active := some k }).unchosen = g.unchosen := by
  have hsame : g.unchosen.nodes.modify o id = g.unchosen.nodes := by
    unfold Table.modify
    cases hn : g.unchosen.nodes.get? o with
    | none => rfl
    | some n => exact Table.insert_of_lookup hn
  have hmapped : (g.nodes.modify o fun n => { n with active := some k }).mapValues Node.unchosen =
      (g.nodes.mapValues Node.unchosen).modify o id := Table.mapValues_modify fun _ => rfl
  exact congrArg (fun nodes => { g with nodes := nodes }) (hmapped.trans hsame)

theorem unchosen_insertNode (names : NameBook) {n : Node} (hn : n.unchosen = n) :
    ({ g with names := names }.insertNode n).unchosen = { g.unchosen with names := names }.insertNode n := by
  simp only [insertNode, unchosen, Table.mapValues_insert, hn]

theorem resolve_unchosen (name : String) (qualifier : Option String) :
    g.unchosen.resolve name qualifier = Prod.map id unchosen (g.resolve name qualifier) := by
  simp only [resolve, unchosen_names]
  cases g.names.lookup (Text.collapse name) (Text.collapse? qualifier) with
  | some o => rfl
  | none => exact congrArg (Prod.mk _) (g.unchosen_insertNode _ rfl).symm

theorem importNode_unchosen (o : NodeId) (name : String) (qualifier : Option String) :
    g.unchosen.importNode o name qualifier = Prod.map id unchosen (g.importNode o name qualifier) := by
  unfold importNode
  rw [show g.unchosen.nodes.contains o = g.nodes.contains o from Table.contains_mapValues]
  split
  · rfl
  · exact congrArg (Prod.mk _) (g.unchosen_insertNode _ rfl).symm

theorem createMorph_unchosen (o : NodeId) (name : Option String) :
    g.unchosen.createMorph o name = (g.createMorph o name).map (Prod.map id unchosen) := by
  unfold createMorph
  rw [lookup_unchosen]
  cases g.nodes.get? o with
  | none => rfl
  | some n =>
    simp only [Option.map_some, Except.map, Prod.map, unchosen, Table.mapValues_insert]
    rfl

/-- A morph that goes is no longer chosen either way. -/
theorem removeMorph_unchosen (k : MorphId) :
    g.unchosen.removeMorph k = (g.removeMorph k).map (Prod.map id unchosen) := by
  cases hm : g.morphs.get? k with
  | none =>
    unfold removeMorph
    rw [unchosen_morphs, hm]
    rfl
  | some m =>
    have hdrop (n : Node) : (n.withoutMorph k).unchosen = n.unchosen.withoutMorph k := by
      simp [Node.unchosen, Node.withoutMorph]
    have hnodes : (g.withoutMorph k m).unchosen.nodes = (g.unchosen.withoutMorph k m).nodes :=
      Table.mapValues_modify hdrop
    rw [removeMorph_eq hm, removeMorph_eq (g := g.unchosen) hm]
    exact congrArg (fun nodes => Except.ok (m, { g.withoutMorph k m with nodes := nodes })) hnodes.symm

theorem removeNode_unchosen (o : NodeId) :
    g.unchosen.removeNode o = (g.removeNode o).map (Prod.map Node.unchosen unchosen) := by
  unfold removeNode
  rw [lookup_unchosen]
  cases g.nodes.get? o with
  | none => rfl
  | some n =>
    simp only [Option.map_some, Except.map, Prod.map, unchosen, Table.mapValues_erase]
    rfl

theorem putRelation_unchosen (r : Relation) :
    g.unchosen.putRelation r = (g.putRelation r).map (Prod.map id unchosen) := by
  unfold putRelation
  rw [requireNode_unchosen, requireNode_unchosen]
  cases g.requireNode r.source with
  | error _ => rfl
  | ok _ => cases g.requireNode r.target <;> rfl

theorem putAttribute_unchosen (a : Attribute) :
    g.unchosen.putAttribute a = (g.putAttribute a).map (Prod.map id unchosen) := by
  unfold putAttribute
  rw [requireNode_unchosen]
  cases g.requireNode a.owner <;> rfl

theorem link_unchosen (k : MorphId) (e : EdgeRef) : g.unchosen.link k e = (g.link k e).map (Prod.map id unchosen) := by
  unfold link
  show (g.requireEdge e >>= fun _ => g.requireMorph k >>= fun _ => _) = _
  cases g.requireEdge e with
  | error _ => rfl
  | ok _ =>
    cases g.requireMorph k with
    | error _ => rfl
    | ok m =>
      simp only [bind, Except.bind]
      split <;> rfl

theorem unlink_unchosen (k : MorphId) (e : EdgeRef) :
    g.unchosen.unlink k e = (g.unlink k e).map (Prod.map id unchosen) := by
  unfold unlink
  show (g.requireMorph k >>= fun _ => _) = _
  cases g.requireMorph k with
  | error _ => rfl
  | ok m =>
    simp only [bind, Except.bind]
    split <;> rfl

theorem unchosen_eraseEdgeRecord (e : EdgeRef) : (g.eraseEdgeRecord e).unchosen = g.unchosen.eraseEdgeRecord e := by
  cases e with
  | relation id =>
    simp only [eraseEdgeRecord, unchosen_relations]
    cases g.relations.get? id <;> rfl
  | attr id =>
    simp only [eraseEdgeRecord, unchosen_attributes]
    cases g.attributes.get? id <;> rfl

theorem removeEdge_unchosen (e : EdgeRef) :
    g.unchosen.removeEdge e = (g.removeEdge e).map (Prod.map id unchosen) := by
  unfold removeEdge
  show (g.requireEdge e >>= fun _ => _) = _
  rw [← unchosen_eraseEdgeRecord]
  cases g.requireEdge e <;> rfl

theorem createTransition_unchosen (rejectCycles : Bool) (draft : TransitionDraft) :
    g.unchosen.createTransition rejectCycles draft =
      (g.createTransition rejectCycles draft).map (Prod.map id unchosen) := by
  simp only [createTransition, checkTransition_unchosen, unchosen_transitions]
  split
  · rfl
  · split
    · rfl
    · simp only [bind, Except.bind]
      cases g.checkTransition rejectCycles _ <;> rfl

theorem updateTransition_unchosen (rejectCycles : Bool) (k : TransitionId) (update : TransitionUpdate) :
    g.unchosen.updateTransition rejectCycles k update = (g.updateTransition rejectCycles k update).map unchosen := by
  simp only [updateTransition, checkTransition_unchosen, unchosen_transitions]
  cases g.transitions.get? k with
  | none => rfl
  | some t =>
    simp only [bind, Except.bind]
    cases g.checkTransition rejectCycles (update.apply t) <;> rfl

theorem deleteTransition_unchosen (k : TransitionId) :
    g.unchosen.deleteTransition k = (g.deleteTransition k).map (Prod.map id unchosen) := by
  unfold deleteTransition
  rw [unchosen_transitions]
  cases g.transitions.get? k <;> rfl

end Changes

end Graph

end Morphology
