import Morphology.Console.Basic
import Morphology.View.Json

/-! What a console shows of a session. -/

namespace Morphology.Session

variable (s : Session)

def listNodes (text : String) : String :=
  let hits := s.graph.search (Text.trim text)
  if hits.isEmpty then "(no results)"
  else
    Text.join "\n" (hits.map (fun n => n.id.text ++ "  " ++ n.displayName) ++
      ["\n(" ++ Text.ofNat hits.length ++ " nodes)"])

/-- The node of that name, or the only one that a search for it finds. -/
def findNode (text : String) : Except ConsoleError NodeId :=
  let text := Text.trim text
  match s.graph.lookup text none with
  | some node => .ok node.id
  | none =>
    match s.graph.search text with
    | [node] => .ok node.id
    | [] => .error (.usage ("no node named '" ++ text ++ "'"))
    | hits =>
      .error (.usage ("'" ++ text ++ "' matches " ++ Text.ofNat hits.length ++
        " nodes, be more specific"))

def relationLine (r : Relation) : String :=
  let target := ((s.graph.nodes.get? r.target).map (·.displayName)).getD r.target.text
  "    <" ++ r.name ++ "> " ++ target ++ "\n"

def attributeLine (a : Attribute) : String :=
  "    has " ++ a.name ++ ": " ++ (a.typed.map (·.display)).getD a.value ++ "\n"

def morphLabel (node : Node) (morph : Morph) : String :=
  match morph.name with
  | some name => name
  | none => if node.basicMorph = morph.id then "basic" else "(unnamed)"

/-- A morph with its edges; a star marks the active one. -/
def morphText (node : Node) (morph : Morph) : String :=
  (if node.activeMorph = morph.id then "*" else " ") ++ " " ++ morph.id.text ++ "  " ++
    morphLabel node morph ++ "\n" ++
    Text.concat ((morph.relations.filterMap s.graph.relations.get?).map s.relationLine) ++
    Text.concat ((morph.attributes.filterMap s.graph.attributes.get?).map attributeLine)

def listMorphs (text : String) : Except ConsoleError String := do
  let id ← s.findNode text
  match s.graph.requireNode id with
  | .error e => throw (.session (.edit (.reference e)))
  | .ok node =>
    return Text.concat ((s.graph.morphsOf node).map (s.morphText node)) ++ "(version " ++
      Text.ofNat node.version ++ ")"

def listTypes : String :=
  let lines :=
    s.schema.nodeTypes.map (fun d => "node       " ++ d.1.name ++ d.2.name) ++
      s.schema.relationTypes.map (fun d => "relation   " ++ d.1.name ++ d.2.name) ++
      s.schema.attributeTypes.map fun d =>
        "attribute  " ++ d.1.name ++ d.2.name ++ " (" ++ d.2.dataType.name ++ ")"
  if lines.isEmpty then "(no types)" else Text.join "\n" lines

def stats : String :=
  "Namespace: " ++ s.graph.space.text ++ "\nNodes: " ++ Text.ofNat s.graph.nodes.size ++ "\nMorphs: " ++
    Text.ofNat s.graph.morphCount ++ "\nRelations: " ++ Text.ofNat s.graph.relations.size ++
    "\nAttributes: " ++ Text.ofNat s.graph.attributes.size ++ "\nTransitions: " ++
    Text.ofNat s.graph.transitions.size

def activeView : View := s.graph.compose ∅

def scoreText : String := (s.score ∅).text

def jsonText : String := s.activeView.toJson.pretty

end Morphology.Session
