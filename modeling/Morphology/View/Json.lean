import Morphology.Json
import Morphology.View.Basic

/-! The view as JSON. What is absent is left out. -/

namespace Morphology

def Value.toJson : Value → Json
  | .bool b => .bool b
  | .int n => .int n
  | .float x => .float x
  | .string s => .string s

namespace View

open Json

def ids {kind : EntityKind} (list : List (Id kind)) : Json := .list (list.map fun id => .string id.text)

def morphJson (m : Morph) : Json :=
  .object ([("id", .string m.id.text)] ++ field? "name" m.name ++
    [("relations", ids m.relations), ("attributes", ids m.attributes)])

def nodeJson (v : NodeView) : Json :=
  .object ([("id", .string v.node.id.text), ("name", .string v.node.name)] ++
    field? "qualifier" v.node.qualifier ++ field? "quantifier" v.node.quantifier ++
    [("role", .string v.node.role.name)] ++ field? "type" v.node.nodeType ++
    [("morphs", .list (v.morphs.map morphJson)), ("nbh", .string v.chosen.text), ("reused", .bool v.reused),
      ("version", .int v.node.version)])

def relationJson (r : Relation) : Json :=
  .object ([("id", .string r.id.text), ("name", .string r.name), ("source", .string r.source.text),
      ("target", .string r.target.text)] ++
    field? "adverb" r.modifiers.adverb ++ field? "modality" r.modifiers.modality ++
    field? "subject_quantifier" r.modifiers.subjectQuantifier ++
    field? "object_quantifier" r.modifiers.objectQuantifier ++ field? "qualifier" r.modifiers.qualifier)

def typedField (typed : Option Value) : List (String × Json) :=
  match typed with
  | some v => [("typed", v.toJson)]
  | none => []

def attributeJson (a : Attribute) : Json :=
  .object ([("id", .string a.id.text), ("name", .string a.name), ("owner", .string a.owner.text),
      ("value", .string a.value)] ++
    typedField a.typed ++ field? "unit" a.modifiers.unit ++ field? "adverb" a.modifiers.adverb ++
    field? "modality" a.modifiers.modality ++ field? "quantifier" a.modifiers.quantifier)

def stateJson (p : StatePair) : Json :=
  .object [("node", .string p.node.text), ("morph", .string p.morph.text)]

def transitionJson (t : Transition) : Json :=
  .object ([("id", .string t.id.text), ("name", .string t.name)] ++ field? "adjective" t.adjective ++
    [("tense", .string t.tense.name), ("inputs", .list (t.inputs.map stateJson)),
      ("outputs", .list (t.outputs.map stateJson)), ("description", .string t.description)])

def toJson (view : View) : Json :=
  .object [("namespace", .string view.space.text), ("nodes", .list (view.nodes.map nodeJson)),
    ("relations", .list (view.relations.map relationJson)),
    ("attributes", .list (view.attributes.map attributeJson)),
    ("transitions", .list (view.transitions.map transitionJson))]

end View

end Morphology
