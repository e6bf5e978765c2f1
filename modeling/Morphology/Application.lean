import Morphology.Document.Parse
import Morphology.Edit.Edges
import Morphology.Edit.Morphs
import Morphology.Report

/-! Documents applied to a graph. The blocks of a document make the nodes they are named for, its fences make
the morphs they are labelled with, and every statement that fits the schema is written; the others leave no
trace but their errors. -/

namespace Morphology

/-- One step for each item in turn, and the reports on all. -/
def applyEach {α : Type} (step : α → Graph → Report × Graph) : List α → Graph → Report × Graph
  | [], g => ({}, g)
  | item :: items, g =>
    let (report, g) := step item g
    let (rest, g) := applyEach step items g
    (report ++ rest, g)

namespace Graph

variable (schema : Schema)

def resolveTarget (g : Graph) : Target → NodeId × Graph
  | .resolved id => (id, g)
  | .pending name qualifier => g.resolve name qualifier

def writeEdge (morph : MorphId) : GroundedEdge → Edit Upserted
  | .relation r => do
    let target ← modifyGet fun g => resolveTarget g r.target
    Edit.upsertRelation morph (Relation.new r.source r.name target r.modifiers)
  | .attr a => Edit.upsertAttribute morph (Attribute.new a.owner a.name a.value a.typed a.modifiers)

/-- Applies a statement that stands under `node`; `label` names the block. -/
def applyStatement (label : String) (node : NodeId) (morph : MorphId) (line : Nat × Statement)
    (g : Graph) : Report × Graph :=
  let grounding := Grounding.ofStatement schema g node line.2 line.1
  if grounding.errors.isEmpty then
    match writeEdge morph grounding.edge g with
    | .ok upserted g => ({ applied := [⟨label, line.1, upserted.edge, upserted.created⟩] }, g)
    | .error e g => ({ refused := [⟨label, line.1, e⟩] }, g)
  else ({ ungrounded := grounding.errors }, g)

/-- The morph that a fence of `node` is about, made if there is none of that name. -/
def fenceMorph (node : NodeId) (label : Option String) : Edit MorphId := do
  let g ← get
  match g.morphNamed node label with
  | some morph => return morph.id
  | none => Edit.addMorph node label none

def applyFence (label : String) (node : NodeId) (fence : Fence) (g : Graph) : Report × Graph :=
  match fenceMorph node fence.label g with
  | .ok morph g => applyEach (applyStatement schema label node morph) fence.statements g
  | .error e g => ({ refused := fence.statements.map fun line => ⟨label, line.1, e⟩ }, g)

def applyBlock (block : Block) (g : Graph) : Report × Graph :=
  let (node, g) := g.resolve block.name block.qualifier
  let label := ((g.nodes.get? node).map (·.displayName)).getD block.name
  let (report, g) := applyEach (applyFence schema label node) block.fences g
  ({ unread := block.errors } ++ report, g)

def applyDocument (document : Document) (g : Graph) : Report × Graph :=
  applyEach (applyBlock schema) document.blocks g

end Graph

end Morphology
