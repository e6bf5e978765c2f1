import Morphology.Proofs.Application.Writing
import Morphology.Proofs.Document.Places
import Morphology.Proofs.Document.Reading
import Morphology.Proofs.Session.Attainable

/-! What a report says of the statements of a document. Each of them is applied or objected to, and none is refused;
what is applied is in the graph when the last statement has been read, since documents take nothing away. -/

namespace Morphology

open Text

/-- The report is on statements of these lines, in this order. -/
structure Report.Covers (r : Report) (lines : List Nat) : Prop where
  refused : r.refused = []
  ordered : (r.applied.map (·.line)).Sublist lines
  all : ∀ n, n ∈ lines ↔ n ∈ r.applied.map (·.line) ∨ n ∈ r.ungrounded.map (·.line)
  once : lines.Nodup → ∀ n ∈ r.applied.map (·.line), n ∉ r.ungrounded.map (·.line)

namespace Report.Covers

variable {r r' : Report} {lines lines' : List Nat}

theorem append (h : r.Covers lines) (h' : r'.Covers lines') : (r ++ r').Covers (lines ++ lines') := by
  have happlied : (r ++ r').applied.map (·.line) = r.applied.map (·.line) ++ r'.applied.map (·.line) := List.map_append
  have hungrounded : (r ++ r').ungrounded.map (·.line) = r.ungrounded.map (·.line) ++ r'.ungrounded.map (·.line) :=
    List.map_append
  refine ⟨?_, happlied ▸ h.ordered.append h'.ordered, fun n => ?_, fun hnodup n hn hn' => ?_⟩
  · show r.refused ++ r'.refused = []
    rw [h.refused, h'.refused, List.append_nil]
  · rw [happlied, hungrounded, List.mem_append, List.mem_append, List.mem_append, h.all, h'.all]
    exact or_or_or_comm
  · obtain ⟨hlines, hlines', hdisjoint⟩ := List.nodup_append'.mp hnodup
    rw [happlied, List.mem_append] at hn
    rw [hungrounded, List.mem_append] at hn'
    rcases hn with hn | hn <;> rcases hn' with hn' | hn'
    · exact h.once hlines n hn hn'
    · exact hdisjoint ((h.all n).mpr (Or.inl hn)) ((h'.all n).mpr (Or.inr hn'))
    · exact hdisjoint ((h.all n).mpr (Or.inr hn')) ((h'.all n).mpr (Or.inl hn))
    · exact h'.once hlines' n hn hn'

end Report.Covers

namespace Graph

open Grounding

/-- The edge is there, and on the node that the block names, the morph that the fence names refers to it. -/
def Carries (g : Graph) (b : Block) (f : Fence) (a : Applied) : Prop :=
  ∃ n m, g.lookup b.name b.qualifier = some n ∧ a.block = n.displayName ∧ g.morphNamed n.id f.label = some m ∧
    m.contains a.edge = true ∧ g.hasEdge a.edge = true

/-- Facts that later steps leave true. -/
def Lasting (P : Applied → Graph → Prop) : Prop :=
  ∀ a g g', g.Framed → g'.Framed → g.Grown g' → P a g → P a g'

structure Accounts (lines : List Nat) (P : Applied → Graph → Prop) (step : Graph → Report × Graph) (g : Graph) :
    Prop where
  framed : (step g).2.Framed
  grown : g.Grown (step g).2
  covers : (step g).1.Covers lines
  holds : ∀ a ∈ (step g).1.applied, P a (step g).2

section Steps

variable {g g₁ : Graph} {lines : List Nat} {P : Applied → Graph → Prop} {step inner : Graph → Report × Graph}

theorem accounts_applyEach {α : Type} {step : α → Graph → Report × Graph} {lines : α → List Nat}
    {P : α → Applied → Graph → Prop} {I : Graph → Prop} {items : List α} (hP : ∀ item, Lasting (P item))
    (hI : ∀ g g', I g → g.Grown g' → I g')
    (hstep : ∀ item ∈ items, ∀ g, g.Framed → I g → Accounts (lines item) (P item) (step item) g) (h : g.Framed)
    (hg : I g) :
    Accounts (items.flatMap lines) (fun a g => ∃ item ∈ items, P item a g) (applyEach step items) g := by
  induction items generalizing g with
  | nil => exact ⟨h, .refl g, ⟨rfl, .refl _, fun n => by simp [applyEach], by simp [applyEach]⟩, nofun⟩
  | cons item items ih =>
    have hs := hstep item List.mem_cons_self g h hg
    have hrest := ih (fun i hi => hstep i (List.mem_cons_of_mem _ hi)) hs.framed (hI _ _ hg hs.grown)
    refine ⟨hrest.framed, hs.grown.trans hrest.grown, hs.covers.append hrest.covers, fun a ha => ?_⟩
    rcases List.mem_append.mp (show a ∈ (step item g).1.applied ++ _ from ha) with ha | ha
    · exact ⟨item, List.mem_cons_self, hP item a _ _ hs.framed hrest.framed hrest.grown (hs.holds a ha)⟩
    · obtain ⟨i, hi, hold⟩ := hrest.holds a ha
      exact ⟨i, List.mem_cons_of_mem _ hi, hold⟩

theorem Accounts.of_prepared {Q : Applied → Graph → Prop} (ha : Accounts lines P inner g₁) (hg : g.Grown g₁)
    {unread : List ParseError} (hstep : step g = ({ (inner g₁).1 with unread := unread }, (inner g₁).2))
    (hPQ : ∀ a, P a (inner g₁).2 → Q a (inner g₁).2) : Accounts lines Q step g := by
  refine ⟨hstep ▸ ha.framed, hstep ▸ hg.trans ha.grown, ?_, fun a h => ?_⟩
  · rw [hstep]
    exact ⟨ha.covers.refused, ha.covers.ordered, ha.covers.all, ha.covers.once⟩
  · rw [hstep] at h ⊢
    exact hPQ a (ha.holds a h)

end Steps

variable (schema : Schema) {g : Graph} (h : g.Framed) {o : NodeId}

include h

theorem accounts_applyStatement (label : String) {k : MorphId} (hk : g.Owns o k) (line : Nat × Statement) :
    Accounts [line.1] (fun a g => a.line = line.1 ∧ a.block = label ∧ g.Refers k a.edge ∧ g.hasEdge a.edge = true)
      (applyStatement schema label o k line) g := by
  have hframed := (outlastsDocuments_framed schema).applyStatement h label o k line
  have hrun := h.applyStatement_eq schema line hk label
  cases herrors : (ofStatement schema g o line.2 line.1).errors.isEmpty with
  | true =>
    rw [if_pos herrors] at hrun
    obtain ⟨-, hroom, -⟩ := h.roomFor_spec schema line (o := o)
    obtain ⟨m, hm, -⟩ := hroom.owns hk
    have hbears := bears_upserted (w := recordFor schema o line g) hm
    refine ⟨hframed, hrun ▸ hroom.trans (grown_upserted _ k _), ?_, fun a ha => ?_⟩
    · rw [hrun]
      exact ⟨rfl, .refl _, by simp, by simp⟩
    · rw [hrun] at ha ⊢
      obtain rfl := List.mem_singleton.mp ha
      exact ⟨rfl, rfl, hbears.refers, hbears.there⟩
  | false =>
    rw [if_neg (by simp [herrors])] at hrun
    refine ⟨hframed, hrun ▸ .refl g, ?_, fun a ha => ?_⟩
    · rw [hrun]
      have hmem : ∃ e, e ∈ (ofStatement schema g o line.2 line.1).errors :=
        List.exists_mem_of_ne_nil _ fun hnil => by simp [hnil] at herrors
      refine ⟨rfl, List.nil_sublist _, fun n => ?_, by simp⟩
      rw [List.mem_singleton, List.map_nil, or_iff_right List.not_mem_nil, List.mem_map]
      constructor
      · rintro rfl
        exact hmem.imp fun e he => ⟨he, line_of_mem_errors he⟩
      · rintro ⟨e, he, rfl⟩
        exact line_of_mem_errors he
    · rw [hrun] at ha
      cases ha

theorem accounts_applyFence (label : String) (ho : g.nodes.contains o = true) {fence : Fence}
    (hlabel : collapse? fence.label = fence.label) :
    Accounts (fence.statements.map (·.1)) (fun a g => a.line ∈ fence.statements.map (·.1) ∧ a.block = label ∧
      ∃ m, g.morphNamed o fence.label = some m ∧ m.contains a.edge = true ∧ g.hasEdge a.edge = true)
      (applyFence schema label o fence) g := by
  obtain ⟨m, g₁, h₁, hg₁, -, hm, happly⟩ := h.applyFence_spec schema ho label hlabel
  have heach := accounts_applyEach (I := fun g => g.Owns o m.id)
    (fun line a _ _ _ _ hg ⟨hline, hblock, he, hedge⟩ => ⟨hline, hblock, hg.refers he, hg.edges hedge⟩)
    (fun _ _ hk hg => hg.owns hk)
    (fun line (_ : line ∈ fence.statements) _ h hk => accounts_applyStatement schema h label hk line)
    h₁ ⟨m, h₁.morphNamed_present hm⟩
  rw [← List.map_eq_flatMap] at heach
  refine heach.of_prepared hg₁ happly fun a ⟨line, hline, hn, hblock, ⟨m₁, hm₁, he⟩, hedge⟩ => ?_
  obtain ⟨m', hm', hgm⟩ := h₁.morphNamed_grown heach.framed heach.grown hm
  refine ⟨hn ▸ List.mem_map_of_mem hline, hblock, m', hm', ?_, hedge⟩
  have hthere := (heach.framed.morphNamed_present hm').1
  rw [(Morph.bare_inj hgm.bare).1, hm₁] at hthere
  cases hthere
  exact he

theorem accounts_applyBlock {block : Block} (hlabels : ∀ f ∈ block.fences, collapse? f.label = f.label) :
    Accounts (block.fences.flatMap fun f => f.statements.map (·.1))
      (fun a g => ∃ f ∈ block.fences, a.line ∈ f.statements.map (·.1) ∧ g.Carries block f a)
      (applyBlock schema block) g := by
  obtain ⟨n, g₁, h₁, hg₁, -, hname, hn, happly⟩ := h.applyBlock_spec schema block
  have heach := accounts_applyEach (I := fun g => g.nodes.contains n.id = true) ?_
    (fun _ _ ho hg => hg.contains_node ho)
    (fun f hf _ h ho => accounts_applyFence schema h n.displayName ho (hlabels f hf)) h₁
    (Table.contains_iff.mpr ⟨n, hn⟩)
  · refine heach.of_prepared hg₁ happly fun a ⟨f, hf, hline, hblock, hm⟩ => ⟨f, hf, hline, ?_⟩
    obtain ⟨n', hlookup, hn', hid⟩ := heach.framed.lookup_known (heach.grown.names hname)
    obtain ⟨n'', hn'', hgn⟩ := heach.grown.nodes hn
    rw [hn'] at hn''
    cases hn''
    obtain ⟨m, hm⟩ := hm
    exact ⟨n', m, hlookup, hblock.trans hgn.displayName.symm, hid ▸ hm⟩
  · rintro f a g g' h h' hg ⟨hline, hblock, m, hm, he, hedge⟩
    obtain ⟨m', hm', hgm⟩ := h.morphNamed_grown h' hg hm
    exact ⟨hline, hblock, m', hm', hgm.contains _ he, hg.edges hedge⟩

omit h in
theorem lasting_carries (b : Block) :
    Lasting fun a g => ∃ f ∈ b.fences, a.line ∈ f.statements.map (·.1) ∧ g.Carries b f a := by
  rintro a g g' h h' hg ⟨f, hf, hline, n, m, hn, hblock, hm, he, hedge⟩
  obtain ⟨n', hn', hgn⟩ := h.lookup_grown hg hn
  obtain ⟨m', hm', hgm⟩ := h.morphNamed_grown h' hg hm
  exact ⟨f, hf, hline, n', m', hn', hblock.trans hgn.displayName.symm, hgn.id ▸ hm', hgm.contains _ he, hg.edges hedge⟩

theorem accounts_applyDocument {document : Document}
    (hlabels : ∀ b ∈ document.blocks, ∀ f ∈ b.fences, collapse? f.label = f.label) :
    Accounts document.statementLines
      (fun a g => ∃ b ∈ document.blocks, ∃ f ∈ b.fences, a.line ∈ f.statements.map (·.1) ∧ g.Carries b f a)
      (applyDocument schema document) g :=
  accounts_applyEach (I := fun _ => True) lasting_carries (fun _ _ _ _ => trivial)
    (fun b hb _ h _ => accounts_applyBlock schema h (hlabels b hb)) h trivial

end Graph

namespace Session

/-- Every statement of a text stands in the report once, as applied or as objected to, and none is refused. What is
applied is there in the end, under the node and the morph that the text puts it under. -/
theorem statements_accounted {s : Session} (h : s.Attainable) (text : String) :
    let d := Document.parse text
    let r := (s.apply text).1
    let g := (s.apply text).2.graph
    r.unread = d.errors ∧ r.refused = [] ∧
      d.statementLines.Pairwise (· < ·) ∧ (r.applied.map (·.line)).Pairwise (· < ·) ∧
      (∀ n, n ∈ d.statementLines ↔ n ∈ r.applied.map (·.line) ∨ n ∈ r.ungrounded.map (·.line)) ∧
      (∀ n ∈ r.applied.map (·.line), n ∉ r.ungrounded.map (·.line)) ∧
      ∀ a ∈ r.applied, ∃ b ∈ d.blocks, ∃ f ∈ b.fences, a.line ∈ f.statements.map (·.1) ∧ g.Carries b f a := by
  obtain ⟨-, -, hcovers, hholds⟩ :=
    Graph.accounts_applyDocument s.schema h.framed (Document.label_of_parse text)
  have hlines := (Document.numbers_increase text).sublist (Document.statementLines_sublist _)
  exact ⟨Graph.unread_applyDocument s.schema _ _, hcovers.refused, hlines, hlines.sublist hcovers.ordered, hcovers.all,
    hcovers.once (hlines.imp Nat.ne_of_lt), hholds⟩

def leftovers : String := "# Crow\n:::cnl young\n<eats> seed\n<eats>\n<hates> cats\n"

/-- One line is applied, one is not read, and one is objected to. -/
theorem feeder_accounted :
    let d := Document.parse leftovers
    let r := (feeder.apply leftovers).1
    let g := (feeder.apply leftovers).2.graph
    feeder.Attainable ∧ (r.applied.map (·.line), r.errorLines) = ([3], [4, 2, 5]) ∧
      r.unread = d.errors ∧ r.refused = [] ∧
      d.statementLines.Pairwise (· < ·) ∧ (r.applied.map (·.line)).Pairwise (· < ·) ∧
      (∀ n, n ∈ d.statementLines ↔ n ∈ r.applied.map (·.line) ∨ n ∈ r.ungrounded.map (·.line)) ∧
      (∀ n ∈ r.applied.map (·.line), n ∉ r.ungrounded.map (·.line)) ∧
      ∀ a ∈ r.applied, ∃ b ∈ d.blocks, ∃ f ∈ b.fences, a.line ∈ f.statements.map (·.1) ∧ g.Carries b f a :=
  ⟨attainable_feeder, by decide +kernel, statements_accounted attainable_feeder leftovers⟩

end Session

end Morphology
