import Morphology.Proofs.Graph.MorphNumbers

/-! The morphs that documents make, with the ids that come back for them. For one node they are numbered upwards, from
the number that is next when the document is applied. -/

namespace Morphology

/-- What is noted down at each step of `applyEach`, from the graph that it starts with. -/
def noteEach {α β : Type} (step : α → Graph → Report × Graph) (note : α → Graph → List β) : List α → Graph → List β
  | [], _ => []
  | item :: items, g => note item g ++ noteEach step note items (step item g).2

namespace Graph

variable (schema : Schema)

/-- The morph that a fence is about, if there was none of that name. -/
def createdByFence (node : NodeId) (fence : Fence) (g : Graph) : List (NodeId × MorphId) :=
  match g.morphNamed node fence.label, fenceMorph node fence.label g with
  | none, .ok morph _ => [(node, morph)]
  | _, _ => []

def createdByBlock (block : Block) (g : Graph) : List (NodeId × MorphId) :=
  let (node, g) := g.resolve block.name block.qualifier
  let label := ((g.nodes.get? node).map (·.displayName)).getD block.name
  noteEach (applyFence schema label node) (createdByFence node) block.fences g

def createdByDocument (document : Document) (g : Graph) : List (NodeId × MorphId) :=
  noteEach (applyBlock schema) (createdByBlock schema) document.blocks g

end Graph

def createdOn (o : NodeId) (created : List (NodeId × MorphId)) : List MorphId :=
  (created.filter (·.1 = o)).map (·.2)

/-- The morphs made for the node have numbers from `a` on and below `b`, in increasing order. -/
structure Climbs (o : NodeId) (a b : Nat) (created : List (NodeId × MorphId)) : Prop where
  le : a ≤ b
  numbers : ∃ is : List Nat, createdOn o created = is.map (MorphId.ofNode o) ∧ is.Pairwise (· < ·) ∧
    ∀ i ∈ is, a ≤ i ∧ i < b

namespace Climbs

variable {o : NodeId} {a b c : Nat} {created more : List (NodeId × MorphId)}

theorem nil (h : a ≤ b) : Climbs o a b [] := ⟨h, [], rfl, .nil, nofun⟩

theorem single (h : a < b) : Climbs o a b [(o, MorphId.ofNode o a)] :=
  ⟨h.le, [a], by simp [createdOn], List.pairwise_singleton _ a, by simpa using h⟩

theorem elsewhere {k : NodeId} {m : MorphId} (hk : k ≠ o) (h : a ≤ b) : Climbs o a b [(k, m)] :=
  ⟨h, [], by simp [createdOn, hk], .nil, nofun⟩

theorem append (h : Climbs o a b created) (h' : Climbs o b c more) : Climbs o a c (created ++ more) := by
  obtain ⟨is, his, hup, hbounds⟩ := h.numbers
  obtain ⟨js, hjs, hup', hbounds'⟩ := h'.numbers
  refine ⟨h.le.trans h'.le, is ++ js, ?_, ?_, fun i hi => ?_⟩
  · rw [List.map_append, ← his, ← hjs]
    simp [createdOn]
  · refine List.pairwise_append.mpr ⟨hup, hup', fun i hi j hj => ?_⟩
    exact (hbounds i hi).2.trans_le (hbounds' j hj).1
  · rcases List.mem_append.mp hi with hi | hi
    · exact ⟨(hbounds i hi).1, (hbounds i hi).2.trans_le h'.le⟩
    · exact ⟨h.le.trans (hbounds' i hi).1, (hbounds' i hi).2⟩

theorem nodup (h : Climbs o a b created) : (createdOn o created).Nodup := by
  obtain ⟨is, his, hup, -⟩ := h.numbers
  rw [his]
  exact List.Nodup.map (fun i j hij => (MorphId.ofNode_inj hij).2) (hup.imp Nat.ne_of_lt)

theorem not_mem (h : Climbs o a b created) {i : Nat} (hi : i < a) : MorphId.ofNode o i ∉ createdOn o created := by
  obtain ⟨is, his, -, hbounds⟩ := h.numbers
  rw [his]
  intro hin
  obtain ⟨j, hj, heq⟩ := List.mem_map.mp hin
  obtain ⟨-, rfl⟩ := MorphId.ofNode_inj heq
  exact absurd (hbounds j hj).1 (Nat.not_le_of_lt hi)

end Climbs

namespace Graph

variable (schema : Schema) {g : Graph} (o : NodeId)

theorem climbs_noteEach {α : Type} {step : α → Graph → Report × Graph} {note : α → Graph → List (NodeId × MorphId)}
    (hstep : ∀ item g, g.Framed → (step item g).2.Framed ∧
      Climbs o (g.nextMorphOf o) ((step item g).2.nextMorphOf o) (note item g))
    (items : List α) (h : g.Framed) :
    Climbs o (g.nextMorphOf o) ((applyEach step items g).2.nextMorphOf o) (noteEach step note items g) := by
  induction items generalizing g with
  | nil => exact .nil (Nat.le_refl _)
  | cons item items ih =>
    obtain ⟨hframed, hclimbs⟩ := hstep item g h
    exact hclimbs.append (ih hframed)

variable (h : g.Framed)

include h

theorem nextMorphOf_applyEach (label : String) (node : NodeId) (m : MorphId) (lines : List (Nat × Statement)) :
    g.nextMorphOf o ≤ (applyEach (applyStatement schema label node m) lines g).2.nextMorphOf o := by
  have hdocuments := (outlastsBeside_reaches o (g.nextMorphOf o)).outlastsDocuments schema
  have hkept := applyEach_keeps (fun g' => g'.Framed ∧ g.nextMorphOf o ≤ g'.nextMorphOf o)
    (fun line _ h₁ => hdocuments.applyStatement h₁ label node m line) lines ⟨h, Nat.le_refl _⟩
  exact hkept.2

/-- A fence makes the morph first, and then its statements make none. -/
theorem climbs_applyFence (label : String) (node : NodeId) (fence : Fence) :
    Climbs o (g.nextMorphOf o) ((applyFence schema label node fence g).2.nextMorphOf o)
      (createdByFence node fence g) := by
  have hdocuments := (outlastsBeside_reaches o (g.nextMorphOf o)).outlastsDocuments schema
  have hle : g.nextMorphOf o ≤ (applyFence schema label node fence g).2.nextMorphOf o :=
    (hdocuments.applyFence ⟨h, Nat.le_refl _⟩ label node fence).2
  unfold createdByFence
  split
  · rename_i m g₁ hnone hmade
    by_cases hnode : node = o
    · subst hnode
      have hadd : fenceMorph node fence.label g = Edit.addMorph node fence.label none g := by
        rw [fenceMorph]
        refine (bind_ok (x := get) (s := g) rfl).trans ?_
        rw [hnone]
      have h₁ : g₁.Framed := by
        have hframed := (outlastsDocuments_framed schema).fenceMorph h node fence.label
        unfold Leaves at hframed
        rwa [hmade] at hframed
      rw [hadd] at hmade
      obtain ⟨rfl, hlt⟩ := h.ensures_addMorph node fence.label none m g₁ hmade
      rw [← hadd] at hmade
      rw [applyFence, hmade]
      exact .single (hlt.trans_le (nextMorphOf_applyEach schema node h₁ label node _ fence.statements))
    · exact .elsewhere hnode hle
  · exact .nil hle

theorem climbs_applyBlock (block : Block) :
    Climbs o (g.nextMorphOf o) ((applyBlock schema block g).2.nextMorphOf o) (createdByBlock schema block g) := by
  have hresolved : g.nextMorphOf o ≤ (g.resolve block.name block.qualifier).2.nextMorphOf o :=
    (outlastsBeside_reaches o (g.nextMorphOf o)).resolve h block.name block.qualifier (Nat.le_refl _)
  refine Climbs.append (.nil hresolved) (climbs_noteEach o (fun fence g₁ h₁ => ?_) block.fences (h.resolve _ _))
  exact ⟨(outlastsDocuments_framed schema).applyFence h₁ _ _ fence, climbs_applyFence schema o h₁ _ _ fence⟩

theorem climbs_applyDocument (document : Document) :
    Climbs o (g.nextMorphOf o) ((applyDocument schema document g).2.nextMorphOf o)
      (createdByDocument schema document g) :=
  climbs_noteEach o (fun block _ h₁ => ⟨(outlastsDocuments_framed schema).applyBlock h₁ block,
    climbs_applyBlock schema o h₁ block⟩) document.blocks h

end Graph

end Morphology
