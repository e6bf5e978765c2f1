import Morphology.Edit.Basic

/-! Copying, moving and dropping references. An edge that no morph refers to goes with its last reference. -/

namespace Morphology.Edit

/-- Drops a reference, and the edge with the last one; tells whether the edge went. -/
def purge (morph : MorphId) (edge : EdgeRef) : Edit Bool := do
  let left ← change (·.unlink morph edge)
  if left = 0 then
    let _ ← change (·.removeEdge edge)
    return true
  else return false

/-- Drops the references of a morph to these edges; the edges that went with them are returned. -/
def purgeAll (morph : MorphId) : List EdgeRef → Edit (List EdgeRef)
  | [] => return []
  | edge :: edges => do
    let gone ← purge morph edge
    let rest ← purgeAll morph edges
    return if gone then edge :: rest else rest

/-- Lets `target` refer to an edge of `source` as well; tells whether it did not before. -/
def copyRef (edge : EdgeRef) (source target : MorphId) : Edit Bool := do
  let _ ← requireReference source edge
  let m ← demand (·.requireMorph target)
  requireSameOwner m edge
  let added ← change (·.link target edge)
  if added then touchOwner target
  return added

def moveRef (edge : EdgeRef) (source target : MorphId) : Edit Unit := do
  let _ ← requireReference source edge
  let m ← demand (·.requireMorph target)
  requireSameOwner m edge
  if source = target then return ()
  let _ ← change (·.link target edge)
  let _ ← change (·.unlink source edge)
  touchOwner target

def unlistRef (edge : EdgeRef) (morph : MorphId) : Edit Deleted := do
  let _ ← requireReference morph edge
  let gone ← purge morph edge
  touchOwner morph
  return { edges := if gone then [edge] else [] }

def deleteEdge (edge : EdgeRef) : Edit Deleted := do
  demand (·.requireEdge edge)
  let losers ← change (·.removeEdge edge)
  touchOwners losers
  return { edges := [edge] }

def deleteEdges : List EdgeRef → Edit Unit
  | [] => pure ()
  | edge :: edges => do
    let _ ← deleteEdge edge
    deleteEdges edges

end Morphology.Edit
