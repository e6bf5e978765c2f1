import Morphology.Application
import Morphology.Document.Render
import Morphology.Edit.Change
import Morphology.Graph.Export
import Morphology.Session.Types

/-! Everything that can be done in a session. Beyond the changes of a graph it is the schema that is held
against new values and node types. -/

namespace Morphology

namespace Session

/-- Applying a document is never refused; its statements may be. -/
def applyDocument (document : Document) (s : Session) : Report × Session :=
  let (report, g) := s.graph.applyDocument s.schema document
  (report, { s with graph := g })

def apply (text : String) (s : Session) : Report × Session := s.applyDocument (Document.parse text)

end Session

namespace Action

/-- A node type is stored in the spelling of the schema. -/
def checkNodeType (update : NodeUpdate) : Action NodeUpdate := do
  match update.nodeType with
  | some (some name) =>
    let s ← get
    match s.schema.nodeType? name with
    | some d => return { update with nodeType := some (some d.name) }
    | none => throw (.schema (.notFound .nodeType name))
  | _ => return update

def perform (change : Change) : Action Outcome := edit (change.run none)

def updateNode (node : NodeId) (update : NodeUpdate) : Action Outcome := do
  let update ← checkNodeType update
  perform (.updateNode node update)

/-- The value a text stands for under the type of an attribute, if the schema has it. -/
def typedValue (name value : String) : Action (Option Value) := do
  let s ← get
  match s.schema.attributeType? name with
  | none => return none
  | some d =>
    match Grounding.checkValue d value 0 with
    | (typed, []) => return typed
    | (_, e :: _) => throw (.grounding e)

def updateAttribute (id : AttributeId) (value : String) (modifiers : AttributeModifiers) :
    Action Outcome := do
  let s ← get
  match s.graph.attributes.get? id with
  | none => throw (.edit (.reference (.notFound .attr id.text)))
  | some a =>
    let typed ← typedValue a.name value
    perform (.updateAttribute id value typed modifiers)

/-- A change under a guard, which counts only where versions are guarded. -/
def performGuarded (guard : Guard) (change : Change) : Action Outcome := do
  let s ← get
  edit (change.run (if s.settings.guardVersions then some guard else none))

end Action

inductive Operation where
  | apply (text : String)
  | applyDocument (document : Document)
  | resolve (name : String) (qualifier : Option String)
  | importNode (id : NodeId) (name : String) (qualifier : Option String)
  | updateNode (node : NodeId) (update : NodeUpdate)
  | updateAttribute (id : AttributeId) (value : String) (modifiers : AttributeModifiers)
  | change (c : Change)
  | changeGuarded (guard : Guard) (c : Change)
  | createTransition (draft : TransitionDraft)
  | updateTransition (id : TransitionId) (update : TransitionUpdate)
  | deleteTransition (id : TransitionId)
  | changeSchema (c : SchemaChange)
  deriving DecidableEq, Repr

inductive Answer where
  | report (r : Report)
  | node (id : NodeId)
  | outcome (o : Outcome)
  | transition (id : TransitionId)
  | updated
  | deletedTransition (t : Transition)
  | definition (d : Option Definition)
  deriving DecidableEq, Repr

namespace Operation

def perform : Operation → Action Answer
  | apply text => .report <$> modifyGet (Session.apply text)
  | applyDocument document => .report <$> modifyGet (Session.applyDocument document)
  | resolve name qualifier => .node <$> Action.extend fun g => g.resolve name qualifier
  | importNode id name qualifier => .node <$> Action.extend fun g => g.importNode id name qualifier
  | updateNode node update => .outcome <$> Action.updateNode node update
  | updateAttribute id value modifiers => .outcome <$> Action.updateAttribute id value modifiers
  | change c => .outcome <$> Action.perform c
  | changeGuarded guard c => .outcome <$> Action.performGuarded guard c
  | createTransition draft =>
    .transition <$> Action.editTransitions fun rejectCycles g => g.createTransition rejectCycles draft
  | updateTransition id update =>
    (fun _ => .updated) <$> Action.editTransitions fun rejectCycles g =>
      (g.updateTransition rejectCycles id update).map fun g => ((), g)
  | deleteTransition id =>
    .deletedTransition <$> Action.editTransitions fun _ g => g.deleteTransition id
  | changeSchema c => .definition <$> Action.changeSchema c

end Operation

namespace Session

variable (s : Session)

/-- The session after an operation, refused or not. -/
def after (op : Operation) : Session :=
  match op.perform s with
  | .ok _ s => s
  | .error _ s => s

def exportText : String := s.graph.toDocument.render

def score (active : Table NodeId MorphId) : Score := (s.graph.compose active).score s.settings.weights

end Session

end Morphology
