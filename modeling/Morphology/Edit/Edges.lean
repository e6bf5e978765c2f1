import Morphology.Edit.Basic

/-! Writing edges. The id of an edge follows from what it is about, so that stating it again updates it. -/

namespace Morphology.Edit

def requireOwnedBy (morph : MorphId) (owner : NodeId) : Edit Unit := do
  let m ← demand (·.requireMorph morph)
  if m.owner = owner then pure () else refuse (.dangling morph.text owner.text)

def upsertRelation (morph : MorphId) (relation : Relation) : Edit Upserted := do
  requireOwnedBy morph relation.source
  let _ ← demand (·.requireNode relation.target)
  let old ← change (·.putRelation relation)
  let linked ← change (·.link morph (.relation relation.id))
  touchNode relation.source
  return ⟨.relation relation.id, old.isNone, linked⟩

def upsertAttribute (morph : MorphId) (a : Attribute) : Edit Upserted := do
  requireOwnedBy morph a.owner
  let old ← change (·.putAttribute a)
  let linked ← change (·.link morph (.attr a.id))
  touchNode a.owner
  return ⟨.attr a.id, old.isNone, linked⟩

def updateRelation (id : RelationId) (modifiers : RelationModifiers) : Edit Unit := do
  let g ← get
  match g.relations.get? id with
  | none => refuse (.notFound .relation id.text)
  | some r =>
    set { g with relations := g.relations.insert id { r with modifiers := modifiers } }
    touchNode r.source

def updateAttribute (id : AttributeId) (value : String) (typed : Option Value)
    (modifiers : AttributeModifiers) : Edit Unit := do
  let g ← get
  match g.attributes.get? id with
  | none => refuse (.notFound .attr id.text)
  | some a =>
    let a := { a with value := value, typed := typed, modifiers := modifiers }
    set { g with attributes := g.attributes.insert id a }
    touchNode a.owner

end Morphology.Edit
