import Morphology.Schema.Plan
import Morphology.View.Score

/-! What can be set for a session; every setting has a value of its own to fall back on. -/

namespace Morphology

/-- What becomes of a type that edges still have when it is deleted. -/
inductive DeletePolicy where
  | reject
  | cascade
  deriving DecidableEq, Repr

structure Settings where
  user : String := "local"
  graph : String := "default"
  deletePolicy : DeletePolicy := .reject
  /-- Whether an expected version is compared at all. -/
  guardVersions : Bool := false
  rejectCycles : Bool := false
  weights : Weights := {}
  logLevel : Option String := none
  schema : SchemaPlan := {}
  deriving DecidableEq, Repr

def Settings.space (settings : Settings) : Namespace := ⟨settings.user, settings.graph⟩

end Morphology
