import Morphology.Proofs.Document.Composition
import Morphology.Proofs.Session.Attainable

/-! Documents applied one behind the other. Blocks share nothing but the graph, and what becomes of a block does not
depend on where it stands; so a text cut in two at a header may be applied in two turns. -/

namespace Morphology

def Applied.shift (n : Nat) (a : Applied) : Applied := { a with line := a.line + n }

def GroundingError.shift (n : Nat) (e : GroundingError) : GroundingError := { e with line := e.line + n }

def Refused.shift (n : Nat) (r : Refused) : Refused := { r with line := r.line + n }

namespace Report

/-- The report on the same statements further down. -/
def shift (n : Nat) (r : Report) : Report where
  applied := r.applied.map (Applied.shift n)
  unread := r.unread.map (ParseError.shift n)
  ungrounded := r.ungrounded.map (GroundingError.shift n)
  refused := r.refused.map (Refused.shift n)

theorem append_assoc (r r' r'' : Report) : r ++ r' ++ r'' = r ++ (r' ++ r'') := by
  show Report.mk _ _ _ _ = Report.mk _ _ _ _
  congr 1 <;> exact List.append_assoc _ _ _

theorem shift_append (n : Nat) (r r' : Report) : (r ++ r').shift n = r.shift n ++ r'.shift n := by
  show Report.mk _ _ _ _ = Report.mk _ _ _ _
  congr 1 <;> exact List.map_append

end Report

theorem applyEach_append {α : Type} (step : α → Graph → Report × Graph) (items items' : List α) (g : Graph) :
    applyEach step (items ++ items') g =
      ((applyEach step items g).1 ++ (applyEach step items' (applyEach step items g).2).1,
        (applyEach step items' (applyEach step items g).2).2) := by
  induction items generalizing g with
  | nil => rfl
  | cons item items ih =>
    simp only [List.cons_append, applyEach, ih]
    rw [Report.append_assoc]

/-- What a step does, and what it reports further down. -/
def reportedAt (n : Nat) (step : Graph → Report × Graph) (g : Graph) : Report × Graph :=
  ((step g).1.shift n, (step g).2)

theorem applyEach_shift {α : Type} {step : α → Graph → Report × Graph} {move : α → α} {n : Nat}
    (hstep : ∀ item, step (move item) = reportedAt n (step item)) (items : List α) :
    applyEach step (items.map move) = reportedAt n (applyEach step items) := by
  induction items with
  | nil => rfl
  | cons item items ih =>
    funext g
    simp only [List.map_cons, applyEach, hstep, ih, reportedAt, Report.shift_append]

namespace Grounding

variable (n : Nat) (schema : Schema)

theorem checkEnd_shift (field : String) (nodeType : Option String) (allowed : List String) (line : Nat) :
    checkEnd schema field nodeType allowed (line + n) =
      (checkEnd schema field nodeType allowed line).map (GroundingError.shift n) := by
  unfold checkEnd
  cases nodeType with
  | none => rfl
  | some t =>
    simp only
    split <;> rfl

theorem checkValue_shift (d : AttributeType) (value : String) (line : Nat) :
    checkValue d value (line + n) =
      ((checkValue d value line).1, (checkValue d value line).2.map (GroundingError.shift n)) := by
  unfold checkValue
  cases d.dataType.coerce value with
  | none => rfl
  | some v =>
    simp only
    split <;> rfl

theorem ofStatement_shift (g : Graph) (o : NodeId) (s : Statement) (line : Nat) :
    ofStatement schema g o s (line + n) = ⟨(ofStatement schema g o s line).edge,
      (ofStatement schema g o s line).errors.map (GroundingError.shift n)⟩ := by
  cases s with
  | relation s =>
    simp only [ofStatement, ofRelation]
    cases schema.relationType? s.name with
    | none => rfl
    | some d => simp only [checkEnd_shift, List.map_append]
  | attr s =>
    simp only [ofStatement, ofAttribute]
    cases schema.attributeType? s.name with
    | none => rfl
    | some d => simp only [checkValue_shift]

end Grounding

namespace Graph

variable (n : Nat) (schema : Schema)

def shiftLine (line : Nat × Statement) : Nat × Statement := (line.1 + n, line.2)

theorem applyStatement_shift (label : String) (o : NodeId) (k : MorphId) (line : Nat × Statement) :
    applyStatement schema label o k (shiftLine n line) = reportedAt n (applyStatement schema label o k line) := by
  funext g
  unfold reportedAt applyStatement shiftLine
  simp only [Grounding.ofStatement_shift, List.isEmpty_map]
  split
  · cases writeEdge k (Grounding.ofStatement schema g o line.2 line.1).edge g <;> rfl
  · rfl

theorem statements_shift (f : Fence) : (f.shift n).statements = f.statements.map (shiftLine n) := by
  rw [Fence.statements, Fence.shift, List.filterMap_map, Fence.statements, List.map_filterMap]
  congr 1
  funext l
  cases l <;> rfl

theorem applyFence_shift (label : String) (o : NodeId) (f : Fence) :
    applyFence schema label o (f.shift n) = reportedAt n (applyFence schema label o f) := by
  funext g
  unfold reportedAt applyFence
  rw [statements_shift, show (f.shift n).label = f.label from rfl]
  cases fenceMorph o f.label g with
  | ok k g₁ => exact congrFun (applyEach_shift (applyStatement_shift n schema label o k) f.statements) g₁
  | error e g₁ =>
    simp only [Report.shift, List.map_map]
    rfl

theorem applyBlock_shift (b : Block) : applyBlock schema (b.shift n) = reportedAt n (applyBlock schema b) := by
  funext g
  unfold reportedAt applyBlock
  simp only [Document.fences_shift, applyEach_shift (applyFence_shift n schema _ _), Report.shift_append]
  rfl

end Graph

namespace Session

/-- Two texts applied as one, where the second starts with a header: it is read and applied as it would be after the
first one, and reported where it stands. -/
theorem apply_append (s : Session) {t₁ t₂ : String} (h₁ : t₁ = "" ∨ ∃ u, t₁ = u ++ "\n")
    (h₂ : ∃ l ∈ (SourceLine.ofText t₂).head?, l.isHeader = true) :
    let n := (Text.lines t₁).length
    let d := Document.parse (t₁ ++ t₂)
    d.preamble = (Document.parse t₁).preamble ∧
      d.blocks = (Document.parse t₁).blocks ++ (Document.parse t₂).blocks.map (Block.shift n) ∧
      s.apply (t₁ ++ t₂) = ((s.apply t₁).1 ++ ((s.apply t₁).2.apply t₂).1.shift n, ((s.apply t₁).2.apply t₂).2) := by
  have hparse := Document.parse_append h₁ h₂
  refine ⟨by rw [hparse], by rw [hparse], ?_⟩
  simp only [apply, applyDocument, Graph.applyDocument, hparse, applyEach_append,
    applyEach_shift (Graph.applyBlock_shift _ s.schema)]
  rfl

def nest : String := "Birds.\n# Crow\n:::cnl young\n<eats> seed\n<eats>\n"

def brood : String := "# Seed\n:::cnl\n<hates> crow\n"

/-- The first text ends within a fence, the second one has an error two lines behind its header. -/
theorem apply_nest_brood :
    (nest = "" ∨ ∃ u, nest = u ++ "\n") ∧ (∃ l ∈ (SourceLine.ofText brood).head?, l.isHeader = true) ∧
      (feeder.apply (nest ++ brood)).1.errorLines = [5, 3, 7, 8] ∧
      let n := (Text.lines nest).length
      let d := Document.parse (nest ++ brood)
      d.preamble = (Document.parse nest).preamble ∧
        d.blocks = (Document.parse nest).blocks ++ (Document.parse brood).blocks.map (Block.shift n) ∧
        feeder.apply (nest ++ brood) = ((feeder.apply nest).1 ++ ((feeder.apply nest).2.apply brood).1.shift n,
          ((feeder.apply nest).2.apply brood).2) := by
  have hends : nest = "" ∨ ∃ u, nest = u ++ "\n" :=
    Or.inr ⟨"Birds.\n# Crow\n:::cnl young\n<eats> seed\n<eats>", rfl⟩
  have hheader : ∃ l ∈ (SourceLine.ofText brood).head?, l.isHeader = true :=
    ⟨⟨1, "# Seed"⟩, by decide +kernel, by decide +kernel⟩
  exact ⟨hends, hheader, by decide +kernel, apply_append feeder hends hheader⟩

end Session

end Morphology
