import Morphology.Document.Parse

/-! Documents written as text: prose and invalid lines as they are, statements in their canonical form, and
every fence closed. -/

namespace Morphology

def Block.renderHeader (name : String) (qualifier : Option String) : String :=
  match qualifier with
  | some q => "# " ++ name ++ " **" ++ q ++ "**"
  | none => "# " ++ name

def FenceLine.render : FenceLine → String
  | statement _ s => s.render
  | invalid _ raw => raw
  | blank => ""

def Fence.render (fence : Fence) : String :=
  Document.fenceText fence.label ++ "\n" ++
    Text.concat (fence.lines.map fun line => line.render ++ "\n") ++ ":::\n"

def Segment.render : Segment → String
  | prose text => text
  | fence f => f.render

def Block.render (block : Block) : String :=
  Block.renderHeader block.name block.qualifier ++ "\n" ++ Text.concat (block.segments.map Segment.render)

def Document.render (document : Document) : String :=
  document.preamble ++ Text.concat (document.blocks.map Block.render)

end Morphology
