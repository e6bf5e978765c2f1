import Morphology.Proofs.Application.Account
import Morphology.Proofs.Graph.MorphNames

/-! The nodes and morphs that a document makes. When the last block has been applied, each block has its node and each
of its fences the morph of its label; two fences of a block have one morph exactly where their labels are spellings of
one name. -/

namespace Morphology

open Text

def Block.labels (b : Block) : List (Option String) := b.fences.map (·.label)

namespace Graph

/-- The node of the block is there, and so is a morph for every fence. -/
def Houses (g : Graph) (b : Block) : Prop :=
  ∃ n, g.lookup b.name b.qualifier = some n ∧ ∀ label ∈ b.labels, ∃ m, g.morphNamed n.id label = some m

/-- No two fences of the block are about one morph. -/
def KeepsApart (g : Graph) (b : Block) : Prop :=
  ∃ n, g.lookup b.name b.qualifier = some n ∧ (∀ label ∈ b.labels, ∃ m, g.morphNamed n.id label = some m) ∧
    (b.labels.map fun label => (g.morphNamed n.id label).map (·.id)).Nodup

/-! ## What is made -/

/-- The step leaves a larger graph behind, of which `Q` holds. -/
structure Makes (Q : Graph → Prop) (step : Graph → Report × Graph) (g : Graph) : Prop where
  framed : (step g).2.Framed
  grown : g.Grown (step g).2
  made : Q (step g).2

/-- What one item makes is there after all of them, as the others just add to it. -/
theorem makes_applyEach {α : Type} {step : α → Graph → Report × Graph} {Q : α → Graph → Prop} {I : Graph → Prop}
    {items : List α} (hQ : ∀ item g g', g.Framed → g'.Framed → g.Grown g' → Q item g → Q item g')
    (hI : ∀ g g', I g → g.Grown g' → I g')
    (hstep : ∀ item ∈ items, ∀ g, g.Framed → I g → Makes (Q item) (step item) g) {g : Graph} (h : g.Framed) (hg : I g) :
    Makes (fun g => ∀ item ∈ items, Q item g) (applyEach step items) g := by
  induction items generalizing g with
  | nil => exact ⟨h, .refl g, nofun⟩
  | cons item items ih =>
    have hs := hstep item List.mem_cons_self g h hg
    have hrest := ih (fun i hi => hstep i (List.mem_cons_of_mem _ hi)) hs.framed (hI _ _ hg hs.grown)
    refine ⟨hrest.framed, hs.grown.trans hrest.grown, List.forall_mem_cons.mpr ⟨?_, hrest.made⟩⟩
    exact hQ item _ _ hs.framed hrest.framed hrest.grown hs.made

section Made

variable (schema : Schema) {g : Graph} (h : g.Framed) {o : NodeId}

include h

theorem makes_applyFence (label : String) (ho : g.nodes.contains o = true) {fence : Fence}
    (hlabel : collapse? fence.label = fence.label) :
    Makes (fun g => ∃ m, g.morphNamed o fence.label = some m) (applyFence schema label o fence) g := by
  obtain ⟨m, g₁, h₁, hg₁, -, hm, happly⟩ := h.applyFence_spec schema ho label hlabel
  have heach := makes_applyEach (Q := fun _ _ => True) (I := fun g => g.Owns o m.id)
    (fun _ _ _ _ _ _ => id) (fun _ _ hk hg => hg.owns hk)
    (fun line (_ : line ∈ fence.statements) _ h hk =>
      have hline := accounts_applyStatement schema h label hk line
      ⟨hline.framed, hline.grown, trivial⟩) h₁ ⟨m, h₁.morphNamed_present hm⟩
  obtain ⟨m', hm', -⟩ := h₁.morphNamed_grown heach.framed heach.grown hm
  refine ⟨?_, ?_, ?_⟩ <;> rw [happly]
  · exact heach.framed
  · exact hg₁.trans heach.grown
  · exact ⟨m', hm'⟩

theorem makes_applyBlock {block : Block} (hlabels : ∀ f ∈ block.fences, collapse? f.label = f.label) :
    Makes (·.Houses block) (applyBlock schema block) g := by
  obtain ⟨n, g₁, h₁, hg₁, -, hname, hn, happly⟩ := h.applyBlock_spec schema block
  have heach := makes_applyEach (Q := fun f g => ∃ m, g.morphNamed n.id f.label = some m)
    (I := fun g => g.nodes.contains n.id = true)
    (fun f g g' h h' hg ⟨m, hm⟩ => (h.morphNamed_grown h' hg hm).imp fun _ => And.left)
    (fun _ _ ho hg => hg.contains_node ho)
    (fun f hf _ h ho => makes_applyFence schema h n.displayName ho (hlabels f hf)) h₁ (Table.contains_iff.mpr ⟨n, hn⟩)
  obtain ⟨n', hlookup, -, hid⟩ := heach.framed.lookup_known (heach.grown.names hname)
  refine ⟨?_, ?_, ?_⟩ <;> rw [happly]
  · exact heach.framed
  · exact hg₁.trans heach.grown
  · refine ⟨n', hlookup, fun label hlabel => ?_⟩
    obtain ⟨f, hf, rfl⟩ := List.mem_map.mp hlabel
    exact hid ▸ heach.made f hf

theorem makes_applyDocument {d : Document} (hlabels : ∀ b ∈ d.blocks, ∀ f ∈ b.fences, collapse? f.label = f.label) :
    Makes (fun g => ∀ b ∈ d.blocks, g.Houses b) (applyDocument schema d) g := by
  refine makes_applyEach (I := fun _ => True) ?_ (fun _ _ _ _ => trivial)
    (fun b hb _ h _ => makes_applyBlock schema h (hlabels b hb)) h trivial
  rintro b g g' h h' hg ⟨n, hn, hmorphs⟩
  obtain ⟨n', hn', hgn⟩ := h.lookup_grown hg hn
  refine ⟨n', hn', fun label hlabel => ?_⟩
  obtain ⟨m, hm⟩ := hmorphs label hlabel
  exact hgn.id ▸ (h.morphNamed_grown h' hg hm).imp fun _ => And.left

end Made

/-! ## What is told apart -/

section Apart

variable {g : Graph} {o : NodeId} {n : Node} {m m' : Morph} {label label' : Option String} {b : Block}

theorem morphNamed_congr (h : label.map fold = label'.map fold) : g.morphNamed o label = g.morphNamed o label' := by
  cases label <;> cases label'
  · rfl
  · cases h
  · cases h
  · simp only [morphNamed, Option.some.inj h]

variable (hf : g.Framed) (h : g.MorphsApart)

include hf h

theorem MorphsApart.name_of_basic (hn : g.nodes.get? o = some n) (hm : g.morphs.get? n.basicMorph = some m) :
    m.name = none := by
  obtain ⟨hid, hnum⟩ := hf.node hn
  obtain ⟨m', hm', ho⟩ := hf.basic_there hn
  rw [hm] at hm'
  cases hm'
  refine h.basic ?_
  rw [ho, ← hid, ← hnum.basicMorph_eq, hm]

/-- The morph of a label has the name that the label is. -/
theorem MorphsApart.name_of_label (hm : g.morphNamed o label = some m) : m.name.map fold = label.map fold := by
  unfold morphNamed at hm
  cases hn : g.nodes.get? o with
  | none => simp [hn] at hm
  | some n =>
    simp only [hn] at hm
    cases label with
    | none => rw [h.name_of_basic hf hn hm]
    | some label => simpa using List.find?_some hm

theorem MorphsApart.same_morph_iff (hm : g.morphNamed o label = some m) (hm' : g.morphNamed o label' = some m') :
    m.id = m'.id ↔ label.map fold = label'.map fold := by
  constructor
  · intro hid
    have hthere := (hf.morphNamed_present hm).1
    rw [hid, (hf.morphNamed_present hm').1] at hthere
    cases hthere
    rw [← h.name_of_label hf hm, h.name_of_label hf hm']
  · intro hfold
    rw [morphNamed_congr hfold, hm'] at hm
    cases hm
    rfl

theorem MorphsApart.keepsApart_iff (hb : g.Houses b) : g.KeepsApart b ↔ (b.labels.map (Option.map fold)).Nodup := by
  obtain ⟨n, hn, hmorphs⟩ := hb
  have hsame {label label' : Option String} (hl : label ∈ b.labels) (hl' : label' ∈ b.labels) :
      (g.morphNamed n.id label).map (·.id) ≠ (g.morphNamed n.id label').map (·.id) ↔
        label.map fold ≠ label'.map fold := by
    obtain ⟨m, hm⟩ := hmorphs label hl
    obtain ⟨m', hm'⟩ := hmorphs label' hl'
    rw [hm, hm', Option.map_some, Option.map_some, ne_eq, Option.some.injEq, h.same_morph_iff hf hm hm']
  have hnodup : (b.labels.map fun label => (g.morphNamed n.id label).map (·.id)).Nodup ↔
      (b.labels.map (Option.map fold)).Nodup := by
    rw [List.Nodup, List.pairwise_map, List.Nodup, List.pairwise_map]
    exact List.Pairwise.iff_of_mem hsame
  rw [← hnodup]
  constructor
  · rintro ⟨n', hn', -, hapart⟩
    rw [hn] at hn'
    cases hn'
    exact hapart
  · exact fun hapart => ⟨n, hn, hmorphs, hapart⟩

end Apart

end Graph

namespace Session

/-- Whether the fences of a block are kept apart can be told from its labels. -/
theorem keepsApart_applyDocument_iff {s : Session} (h : s.Attainable) {d : Document}
    (hlabels : ∀ b ∈ d.blocks, ∀ f ∈ b.fences, collapse? f.label = f.label) {b : Block} (hb : b ∈ d.blocks) :
    (s.applyDocument d).2.graph.KeepsApart b ↔ (b.labels.map (Option.map fold)).Nodup := by
  have hmade := Graph.makes_applyDocument s.schema h.framed hlabels
  exact (h.after (.applyDocument d)).morphsApart.keepsApart_iff hmade.framed (hmade.made b hb)

end Session

end Morphology
