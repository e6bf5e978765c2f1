import Morphology.Proofs.Application
import Morphology.Proofs.Document.Emptied
import Morphology.Session.Operation

/-! Lines at fault. A line that is no statement, or one that the schema does not allow, leaves no trace but its error:
with these lines emptied, a text does to a graph what it did with them. -/

namespace Morphology

/-- On these lines the second step does what the first one does, but for the statements that the first one objects to,
which it passes over. -/
structure Skips (ns lines : List Nat) (step step' : Graph → Report × Graph) : Prop where
  within : ∀ g, ∀ n ∈ (step g).1.ungrounded.map (·.line), n ∈ lines
  same : lines.Nodup → ∀ g, (∀ n ∈ lines, n ∈ ns ↔ n ∈ (step g).1.ungrounded.map (·.line)) →
    (step' g).2 = (step g).2 ∧ (step' g).1.applied = (step g).1.applied ∧ (step' g).1.refused = (step g).1.refused ∧
      (step' g).1.ungrounded = []

section Steps

variable {α β : Type} {ns : List Nat}

theorem applyEach_filter (step : α → Graph → Report × Graph) (p : α → Bool) (items : List α) :
    applyEach step (items.filter p) = applyEach (fun item g => if p item then step item g else ({}, g)) items := by
  induction items with
  | nil => rfl
  | cons item items ih =>
    funext g
    rw [List.filter_cons]
    cases hp : p item with
    | true => simp only [if_true, applyEach, ih, hp]
    | false =>
      simp only [applyEach, ← ih, hp]
      rfl

theorem skips_applyEach {step : α → Graph → Report × Graph} {step' : β → Graph → Report × Graph} {lines : α → List Nat}
    {items : List α} {items' : List β}
    (h : List.Forall₂ (fun item item' => Skips ns (lines item) (step item) (step' item')) items items') :
    Skips ns (items.flatMap lines) (applyEach step items) (applyEach step' items') := by
  induction h with
  | nil => exact ⟨fun _ => nofun, fun _ _ _ => ⟨rfl, rfl, rfl, rfl⟩⟩
  | @cons item item' items items' hs _ hrest =>
    rw [List.flatMap_cons]
    have hungrounded (g : Graph) : (applyEach step (item :: items) g).1.ungrounded.map (·.line) =
        (step item g).1.ungrounded.map (·.line) ++
          (applyEach step items (step item g).2).1.ungrounded.map (·.line) := List.map_append
    refine ⟨fun g n hn => ?_, fun hnodup g hns => ?_⟩
    · rw [hungrounded, List.mem_append] at hn
      exact List.mem_append.mpr (hn.imp (hs.within g n) (hrest.within _ n))
    · simp only [hungrounded, List.mem_append] at hns
      -- What the first item is objected to on its lines is not mixed with what the others are.
      obtain ⟨hitem, hitems, hdisjoint⟩ := List.nodup_append'.mp hnodup
      obtain ⟨hgraph, happlied, hrefused, hnone⟩ := hs.same hitem g fun n hn =>
        (hns n (Or.inl hn)).trans (or_iff_left fun hlater => hdisjoint hn (hrest.within _ n hlater))
      obtain ⟨hgraph', happlied', hrefused', hnone'⟩ := hrest.same hitems (step item g).2 fun n hn =>
        (hns n (Or.inr hn)).trans (or_iff_right fun hearlier => hdisjoint (hs.within g n hearlier) hn)
      have hrun : applyEach step' (item' :: items') g = ((step' item' g).1 ++
          (applyEach step' items' (step item g).2).1, (applyEach step' items' (step item g).2).2) := by
        rw [← hgraph]
        rfl
      rw [hrun]
      exact ⟨hgraph', congrArg₂ (· ++ ·) happlied happlied', congrArg₂ (· ++ ·) hrefused hrefused',
        congrArg₂ (· ++ ·) hnone hnone'⟩

theorem forall₂_of_map_eq {γ : Type} {f : α → γ} {f' : β → γ} {items : List α} {items' : List β}
    (h : items.map f = items'.map f') : List.Forall₂ (fun item item' => f item = f' item') items items' := by
  rwa [← List.forall₂_eq_eq_eq, List.forall₂_map_left_iff, List.forall₂_map_right_iff] at h

end Steps

theorem Fence.statements_without (ns : List Nat) (f : Fence) :
    (f.without ns).statements = f.statements.filter fun line => line.1 ∉ ns := by
  unfold statements without
  induction f.lines with
  | nil => rfl
  | cons l ls ih =>
    cases l with
    | statement n s => by_cases hn : n ∈ ns <;> simp [FenceLine.isOff, FenceLine.number?, hn, ih]
    | invalid n raw => by_cases hn : n ∈ ns <;> simp [FenceLine.isOff, FenceLine.number?, hn, ih]
    | blank => exact ih

namespace Graph

variable (schema : Schema) {ns : List Nat}

/-- A statement that is objected to leaves the graph as it is. -/
theorem applyStatement_objected (label : String) (o : NodeId) (k : MorphId) (line : Nat × Statement) (g : Graph) :
    (applyStatement schema label o k line g).1.ungrounded = [] ∨
      ∃ errors, errors ≠ [] ∧ (∀ e ∈ errors, e.line = line.1) ∧
        applyStatement schema label o k line g = ({ ungrounded := errors }, g) := by
  unfold applyStatement
  simp only
  split
  · split <;> exact Or.inl rfl
  · rename_i herrors
    exact Or.inr ⟨_, by simpa using herrors, fun e he => Grounding.line_of_mem_errors he, rfl⟩

theorem skips_applyStatement (label : String) (o : NodeId) (k : MorphId) (line : Nat × Statement) :
    Skips ns [line.1] (applyStatement schema label o k line)
      fun g => if decide (line.1 ∉ ns) then applyStatement schema label o k line g else ({}, g) := by
  refine ⟨fun g n hn => ?_, fun _ g hns => ?_⟩ <;>
    obtain hnone | ⟨errors, hne, hline, hrun⟩ := applyStatement_objected schema label o k line g
  · rw [hnone] at hn
    cases hn
  · rw [hrun] at hn
    obtain ⟨e, he, rfl⟩ := List.mem_map.mp hn
    exact List.mem_singleton.mpr (hline e he)
  · have hnot : line.1 ∉ ns := by simp [hns, hnone]
    rw [if_pos (by simpa using hnot)]
    exact ⟨rfl, rfl, rfl, hnone⟩
  · obtain ⟨e, he⟩ := List.exists_mem_of_ne_nil errors hne
    have hin : line.1 ∈ ns := by
      rw [hns line.1 List.mem_cons_self, hrun, ← hline e he]
      exact List.mem_map_of_mem he
    rw [if_neg (by simpa using hin), hrun]
    exact ⟨rfl, rfl, rfl, rfl⟩

theorem skips_applyFence (label : String) (o : NodeId) {f f' : Fence} (h : f.without ns = f'.without []) :
    Skips ns (f.statements.map (·.1)) (applyFence schema label o f) (applyFence schema label o f') := by
  have hlabel : f'.label = f.label := (congrArg Fence.label h.symm :)
  have hstatements : f'.statements = f.statements.filter fun line => line.1 ∉ ns := by
    have hleft := congrArg Fence.statements h
    rw [Fence.statements_without, Fence.statements_without] at hleft
    simpa using hleft.symm
  have hline (k : MorphId) (line : Nat × Statement) (_ : line ∈ f.statements) : Skips ns [line.1] _ _ :=
    skips_applyStatement schema label o k line
  have heach (k : MorphId) := skips_applyEach (List.forall₂_same.mpr (hline k))
  rw [← List.map_eq_flatMap] at heach
  simp only [← applyEach_filter, ← hstatements] at heach
  refine ⟨fun g => ?_, fun hnodup g => ?_⟩ <;> unfold applyFence
  · cases fenceMorph o f.label g with
    | ok k g₁ => exact (heach k).within g₁
    | error e g₁ => nofun
  · rw [hlabel]
    cases fenceMorph o f.label g with
    | ok k g₁ => exact (heach k).same hnodup g₁
    | error e g₁ =>
      intro hns
      have hall : f'.statements = f.statements := by
        rw [hstatements, List.filter_eq_self]
        exact fun line hline => decide_eq_true fun hin => by simpa using (hns _ (List.mem_map_of_mem hline)).mp hin
      rw [hall]
      exact ⟨rfl, rfl, rfl, rfl⟩

theorem skips_applyBlock {b b' : Block} (h : b.gist ns = b'.gist []) :
    Skips ns (b.fences.flatMap fun f => f.statements.map (·.1)) (applyBlock schema b) (applyBlock schema b') := by
  obtain ⟨hname, hqualifier, hfences⟩ : b.name = b'.name ∧ b.qualifier = b'.qualifier ∧
      b.fences.map (Fence.without ns) = b'.fences.map (Fence.without []) := by
    simpa only [Block.gist, Prod.mk.injEq] using h
  have heach (label : String) (o : NodeId) : Skips ns (b.fences.flatMap fun f => f.statements.map (·.1))
      (applyEach (applyFence schema label o) b.fences) (applyEach (applyFence schema label o) b'.fences) :=
    skips_applyEach ((forall₂_of_map_eq hfences).imp fun _ _ hf => skips_applyFence schema label o hf)
  refine ⟨fun g => ?_, fun hnodup g => ?_⟩ <;> unfold applyBlock
  · exact (heach _ _).within _
  · rw [hname, hqualifier]
    exact (heach _ _).same hnodup _

theorem skips_applyDocument {d d' : Document} (h : d.blocks.map (Block.gist ns) = d'.blocks.map (Block.gist [])) :
    Skips ns d.statementLines (applyDocument schema d) (applyDocument schema d') :=
  skips_applyEach ((forall₂_of_map_eq h).imp fun _ _ hb => skips_applyBlock schema hb)

end Graph

namespace Session

/-- The lines of a text that cannot be read, or are objected to when it is applied. -/
def faultyLines (s : Session) (text : String) : List Nat :=
  (Document.parse text).invalidLines ++ (s.apply text).1.ungrounded.map (·.line)

/-- Without the lines at fault, a text does the same in a session. -/
theorem apply_emptied (s : Session) (text : String) :
    let r := s.apply text
    let r' := s.apply (Text.emptied (s.faultyLines text) text)
    r'.2 = r.2 ∧ r'.1.applied = r.1.applied ∧ r'.1.refused = r.1.refused ∧ r'.1.ungrounded = [] ∧
      ∀ e ∈ r'.1.unread, ∃ opened before, e.fault = .unclosedFence opened before := by
  let d := Document.parse text
  have hnodup := d.numbers_perm.nodup_iff.mpr ((Document.numbers_increase text).imp Nat.ne_of_lt)
  obtain ⟨hlines, -, hdisjoint⟩ := List.nodup_append'.mp hnodup
  have hitself : Skips [] d.statementLines (Graph.applyDocument s.schema d) (Graph.applyDocument s.schema d) :=
    Graph.skips_applyDocument s.schema rfl
  have hwithin : ∀ n ∈ (s.apply text).1.ungrounded.map (·.line), n ∈ d.statementLines := hitself.within s.graph
  have hin : ∀ n ∈ s.faultyLines text, n ∈ d.numbers := fun n hn =>
    d.numbers_perm.subset (List.mem_append.mpr ((List.mem_append.mp hn).symm.imp_left (hwithin n)))
  have hskips := Graph.skips_applyDocument s.schema (Document.gist_parse_emptied hin).symm
  obtain ⟨hgraph, happlied, hrefused, hnone⟩ := hskips.same hlines s.graph fun n hn =>
    List.mem_append.trans (or_iff_right (hdisjoint hn))
  intro r r'
  have hsession : r'.2 = r.2 := congrArg (fun g => { s with graph := g }) hgraph
  refine ⟨hsession, happlied, hrefused, hnone, fun e he => ?_⟩
  have hunread : r'.1.unread = _ := Graph.unread_applyDocument s.schema _ s.graph
  rw [hunread] at he
  exact Document.unclosed_of_emptied hin (fun n hn => List.mem_append_left _ hn) he

end Session

end Morphology
