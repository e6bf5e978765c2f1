import Morphology.Edit.References

/-! Adding, choosing and deleting the morphs of a node. -/

namespace Morphology.Edit

/-- The references a new morph of `node` starts with. -/
def seedRefs (node : NodeId) : Option MorphId → Edit (List EdgeRef)
  | none => return []
  | some seed => do
    let m ← demand (·.requireMorph seed)
    if m.owner = node then return m.refs
    else refuse (.dangling seed.text node.text)

def linkAll (morph : MorphId) : List EdgeRef → Edit Unit
  | [] => pure ()
  | edge :: edges => do
    let _ ← change (·.link morph edge)
    linkAll morph edges

/-- Adds a morph, with the references of `seed` if one is given. No two morphs of a node have the same
name in any spelling. -/
def addMorph (node : NodeId) (name : Option String) (seed : Option MorphId) : Edit MorphId := do
  let owner ← demand (·.requireNode node)
  let name := Text.collapse? name
  let g ← get
  if let some n := name then
    if (g.morphsOf owner).any fun m => m.name.map Text.fold == some (Text.fold n) then
      throw (.duplicate ⟨n, .graph⟩)
  let refs ← seedRefs node seed
  let id ← change (·.createMorph node name)
  linkAll id refs
  touchNode node
  return id

def switchActive (node : NodeId) (morph : MorphId) : Edit Unit := do
  let owner ← demand (·.requireNode node)
  if owner.hasMorph morph then modify fun g => g.modifyNode node fun n => { n with active := some morph }
  else
    let g ← get
    if g.morphs.contains morph then refuse (.dangling node.text morph.text)
    else refuse (.notFound .morph morph.text)

/-- Deletes a morph that is not basic, and with it the edges only it refers to. -/
def deleteMorph (morph : MorphId) : Edit Deleted := do
  let m ← demand (·.requireMorph morph)
  let node ← demand (·.requireNode m.owner)
  if node.basicMorph = morph then refuse (.protectedMorph morph)
  requireFreeMorph morph
  let edges ← purgeAll morph m.refs
  let _ ← change (·.removeMorph morph)
  touchNode m.owner
  return { morphs := [morph], edges := edges }

end Morphology.Edit
