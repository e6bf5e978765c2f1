import Morphology.Session.Operation

/-! Directives: lines for what no document can state. Nodes are named as in a header, morphs by their names,
the basic morph by `basic`. -/

namespace Morphology

structure MorphPath where
  node : String
  morph : String
  deriving DecidableEq, Repr

inductive Directive where
  | addMorph (place : MorphPath) (seed : Option String)
  | switch (place : MorphPath)
  | unlist (place : MorphPath) (edge : String)
  | deleteMorph (place : MorphPath)
  | deleteNode (name : String)
  | deleteType (kind : TypeKind) (name : String)
  | transition (name : String) (input output : MorphPath)
  deriving DecidableEq, Repr

inductive DirectiveError where
  | notDirective (text : String)
  | noPath (text : String)
  | noEdgeName
  | noTransitionName
  | noArrow
  | unknown (body : String)
  | noNode (name : String)
  | noMorph (name : String) (node : NodeId)
  | morphGone (morph : MorphId)
  | noEdge (morph : MorphId) (name : String)
  | session (e : SessionError)
  deriving DecidableEq, Repr

def DirectiveError.message : DirectiveError → String
  | notDirective text => "not a directive: '" ++ text ++ "'"
  | noPath text => "expected '<node> > <morph>', got '" ++ text ++ "'"
  | noEdgeName => "expected '@unlist <node> > <morph> : <edge name>'"
  | noTransitionName => "expected '@transition <name>: <input> => <output>'"
  | noArrow => "expected '<input> => <output>'"
  | unknown body => "unknown directive '@" ++ body ++ "'"
  | noNode name => "no node named '" ++ name ++ "'"
  | noMorph name node => "no morph named '" ++ name ++ "' on " ++ node.text
  | morphGone morph => "morph not found: " ++ morph.text
  | noEdge morph name => morph.text ++ " has no edge named '" ++ name ++ "'"
  | session e => e.message

def MorphPath.parse (text : String) : Except DirectiveError MorphPath :=
  match Text.splitFirst ">" text with
  | some (node, morph) => .ok ⟨Text.trim node, Text.trim morph⟩
  | none => .error (.noPath (Text.trim text))

namespace Directive

inductive Keyword where
  | addMorph
  | switch
  | unlist
  | deleteMorph
  | deleteNodeType
  | deleteNode
  | deleteRelationType
  | deleteAttributeType
  | transition
  deriving DecidableEq, Repr

/-- The words that start a directive; of two that fit the first one counts. -/
def keywords : List (Keyword × String) :=
  [(.addMorph, "add morph "), (.switch, "switch "), (.unlist, "unlist "), (.deleteMorph, "delete morph "),
    (.deleteNodeType, "delete node type "), (.deleteNode, "delete node "),
    (.deleteRelationType, "delete relation type "), (.deleteAttributeType, "delete attribute type "),
    (.transition, "transition ")]

def keyword? (body : String) : Option (Keyword × String) :=
  keywords.findSome? fun k => (Text.behind? k.2 body).map (k.1, ·)

def parseAdd (rest : String) : Except DirectiveError Directive :=
  match Text.splitFirst " from " rest with
  | some (path, seed) => (MorphPath.parse path).map (addMorph · (some (Text.trim seed)))
  | none => (MorphPath.parse rest).map (addMorph · none)

def parseUnlist (rest : String) : Except DirectiveError Directive :=
  match Text.splitFirst ":" rest with
  | some (path, edge) => (MorphPath.parse path).map (unlist · (Text.trim edge))
  | none => .error .noEdgeName

def parseTransition (rest : String) : Except DirectiveError Directive :=
  match Text.splitFirst ":" rest with
  | none => .error .noTransitionName
  | some (name, pairs) =>
    match Text.splitFirst "=>" pairs with
    | none => .error .noArrow
    | some (input, output) => do
      let input ← MorphPath.parse input
      let output ← MorphPath.parse output
      return transition (Text.trim name) input output

def parse (line : String) : Except DirectiveError Directive :=
  match Text.behind? "@" (Text.trim line) with
  | none => .error (.notDirective (Text.trim line))
  | some body =>
    match keyword? body with
    | none => .error (.unknown body)
    | some (.addMorph, rest) => parseAdd rest
    | some (.switch, rest) => (MorphPath.parse rest).map switch
    | some (.unlist, rest) => parseUnlist rest
    | some (.deleteMorph, rest) => (MorphPath.parse rest).map deleteMorph
    | some (.deleteNodeType, rest) => .ok (deleteType .nodeType (Text.trim rest))
    | some (.deleteNode, rest) => .ok (deleteNode (Text.trim rest))
    | some (.deleteRelationType, rest) => .ok (deleteType .relationType (Text.trim rest))
    | some (.deleteAttributeType, rest) => .ok (deleteType .attributeType (Text.trim rest))
    | some (.transition, rest) => parseTransition rest

/-- A name, perhaps with a qualifier between double stars. -/
def splitQualifier (text : String) : String × Option String :=
  match Text.splitFirst "**" text with
  | some (name, rest) =>
    let qualifier := String.ofList (Chars.dropEndWhile (· == '*') rest.toList)
    (Text.trim name, some (Text.trim qualifier))
  | none => (text, none)

variable (s : Session)

def findNode (text : String) : Except DirectiveError NodeId :=
  let text := Text.trim text
  let (name, qualifier) := splitQualifier text
  match s.graph.lookup name qualifier with
  | some node => .ok node.id
  | none => .error (.noNode text)

def findMorph (node : NodeId) (name : String) : Except DirectiveError MorphId :=
  let name := if Text.lowercaseAscii name = "basic" then none else some name
  match s.graph.morphNamed node name with
  | some morph => .ok morph.id
  | none => .error (.noMorph (name.getD "basic") node)

def findPlace (place : MorphPath) : Except DirectiveError StatePair := do
  let node ← findNode s place.node
  let morph ← findMorph s node place.morph
  return ⟨node, morph⟩

/-- The first edge of a morph whose type has that name. -/
def findEdge (morph : MorphId) (name : String) : Except DirectiveError EdgeRef :=
  match s.graph.morphs.get? morph with
  | none => .error (.morphGone morph)
  | some m =>
    match m.refs.find? fun edge => (s.graph.edgeName? edge).map Text.fold == some (Text.fold name) with
    | some edge => .ok edge
    | none => .error (.noEdge morph name)

/-- The operation that a directive stands for in a session. -/
def resolve : Directive → Except DirectiveError Operation
  | addMorph place seed => do
    let node ← findNode s place.node
    match seed with
    | none => return .change (.addMorph node (some place.morph) none)
    | some seed => return .change (.addMorph node (some place.morph) (some (← findMorph s node seed)))
  | switch place => do
    let pair ← findPlace s place
    return .change (.switchActive pair.node pair.morph)
  | unlist place edge => do
    let pair ← findPlace s place
    return .change (.unlistRef (← findEdge s pair.morph edge) pair.morph)
  | deleteMorph place => do
    let pair ← findPlace s place
    return .change (.deleteMorph pair.morph)
  | deleteNode name => return .change (.deleteNode (← findNode s name))
  | deleteType kind name => return .changeSchema (.delete kind name)
  | transition name input output => do
    let input ← findPlace s input
    let output ← findPlace s output
    return .createTransition { name := name, inputs := [input], outputs := [output] }

/-- What an answer says was deleted from the graph. -/
def deletedBy : Answer → Deleted
  | .outcome (.deleted d) => d
  | _ => {}

def execute (d : Directive) (s : Session) : Except DirectiveError Deleted × Session :=
  match d.resolve s with
  | .error e => (.error e, s)
  | .ok op =>
    match op.perform s with
    | .ok answer s => (.ok (deletedBy answer), s)
    | .error e s => (.error (.session e), s)

end Directive

end Morphology
