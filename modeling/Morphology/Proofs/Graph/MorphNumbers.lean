import Morphology.Proofs.Session.Attainable

/-! How the morphs of a node are numbered. The number of the next one only grows while the node is there, whatever else
is done, and no morph is made with a number that has been passed. -/

namespace Morphology

namespace Graph

/-- The number that the next morph of a node gets; nodes begin with one. -/
def nextMorphOf (g : Graph) (o : NodeId) : Nat := ((g.nodes.get? o).map (·.nextMorph)).getD 1

/-- The node is there, and does not have the morph of this number any more. -/
structure Spent (o : NodeId) (i : Nat) (g : Graph) : Prop where
  there : g.nodes.contains o = true
  passed : i < g.nextMorphOf o
  gone : g.morphs.get? (MorphId.ofNode o i) = none

/-- What outlasts the changes of a frame other than the loss of `o`. -/
structure OutlastsBeside (o : NodeId) (J : Graph → Prop) : Prop where
  sameFrame : ∀ {g g'}, J g → g.SameFrame g' → J g'
  withNode : ∀ {g id} (name : String) (qualifier : Option String), g.nodes.contains id = false → J g →
    J (g.withNode id name qualifier)
  createMorph : ∀ {g k n} (name : Option String), g.nodes.get? k = some n → n.id = k → J g →
    J (g.withMorph g.names n.withMorph (MorphId.ofNode n.id n.nextMorph) name)
  withoutMorph : ∀ {g} (k : MorphId) (m : Morph), J g → J (g.withoutMorph k m)
  withoutNode : ∀ {g k} (n : Node), k ≠ o → J g → J (g.withoutNode k n)

variable {g g' : Graph} {o k : NodeId} {n : Node} {i : Nat}

/-! ### The number of the next morph -/

theorem nextMorphOf_eq (hn : g.nodes.get? o = some n) : g.nextMorphOf o = n.nextMorph := by
  rw [nextMorphOf, hn]
  rfl

theorem nextMorphOf_missing (h : g.nodes.contains o = false) : g.nextMorphOf o = 1 := by
  rw [nextMorphOf, Table.contains_eq_false.mp h]
  rfl

/-- The number of the basic morph has been passed from the beginning. -/
theorem Framed.nextMorphOf_pos (h : g.Framed) : 0 < g.nextMorphOf o := by
  cases hn : g.nodes.get? o with
  | none =>
    rw [nextMorphOf, hn]
    exact Nat.one_pos
  | some n =>
    obtain ⟨i, hi, -⟩ := (h.node hn).2.numbered _ (List.mem_of_mem_head? (h.node hn).2.basic)
    rw [nextMorphOf_eq hn]
    exact Nat.zero_lt_of_lt hi

theorem nextMorphOf_withMorph {book : NameBook} {l : MorphId} {name : Option String} :
    (g.withMorph book n l name).nextMorphOf o = if o = n.id then n.nextMorph else g.nextMorphOf o := by
  rw [nextMorphOf, nodes_withMorph]
  split
  · rfl
  · rfl

theorem SameFrame.nextMorphOf (h : g.SameFrame g') : g'.nextMorphOf o = g.nextMorphOf o := by
  have hnext : ∀ x : Option Node, (x.map Node.frame).map (·.nextMorph) = x.map (·.nextMorph) := by
    intro x
    rw [Option.map_map]
    rfl
  rw [Graph.nextMorphOf, ← hnext, h.nodes o, hnext, Graph.nextMorphOf]

theorem nextMorphOf_withoutMorph (k : MorphId) (m : Morph) : (g.withoutMorph k m).nextMorphOf o = g.nextMorphOf o := by
  rw [nextMorphOf, nodes_withoutMorph]
  split
  · rw [Option.map_map]
    rfl
  · rfl

theorem nextMorphOf_withoutNode (n : Node) (h : k ≠ o) : (g.withoutNode k n).nextMorphOf o = g.nextMorphOf o := by
  rw [nextMorphOf, nodes_withoutNode, if_neg h.symm, nextMorphOf]

/-! ### What outlasts the changes beside a node -/

theorem outlastsBeside_reaches (o : NodeId) (c : Nat) : OutlastsBeside o fun g => c ≤ g.nextMorphOf o where
  sameFrame h hs := hs.nextMorphOf.symm ▸ h
  withNode {g id} name qualifier hfree h := by
    rw [withNode, nextMorphOf_withMorph]
    split
    · rename_i ho
      obtain rfl : o = id := ho
      rwa [nextMorphOf_missing hfree] at h
    · exact h
  createMorph {g k n} name hn hid h := by
    rw [nextMorphOf_withMorph]
    split
    · rename_i ho
      obtain rfl : o = k := Eq.trans ho hid
      exact h.trans ((nextMorphOf_eq hn).le.trans (Nat.le_succ _))
    · exact h
  withoutMorph k m h := (nextMorphOf_withoutMorph k m).symm ▸ h
  withoutNode n hne h := (nextMorphOf_withoutNode n hne).symm ▸ h

/-- A new morph of the node has a number that has not been passed yet, and the basic morph of another one has not got
the id either. -/
theorem outlastsBeside_spent (o : NodeId) (i : Nat) : OutlastsBeside o (Spent o i) where
  sameFrame {g g'} h hs := by
    refine ⟨hs.contains_iff.mpr h.there, hs.nextMorphOf.symm ▸ h.passed, ?_⟩
    have hgone := hs.morphs (MorphId.ofNode o i)
    rw [h.gone] at hgone
    exact Option.map_eq_none_iff.mp hgone
  withNode {g id} name qualifier hfree h := by
    have hne : o ≠ id := by
      rintro rfl
      rw [h.there] at hfree
      cases hfree
    have hnot : MorphId.ofNode o i ≠ MorphId.ofNode id 0 := fun heq => hne (MorphId.ofNode_inj heq).1
    refine ⟨contains_withMorph.mpr (.inr h.there), ?_, ?_⟩
    · exact (outlastsBeside_reaches o (i + 1)).withNode name qualifier hfree h.passed
    · rw [withNode, morphs_withMorph, if_neg hnot, h.gone]
  createMorph {g k n} name hn hid h := by
    refine ⟨contains_withMorph.mpr (.inr h.there),
      (outlastsBeside_reaches o (i + 1)).createMorph name hn hid h.passed, ?_⟩
    rw [morphs_withMorph, if_neg, h.gone]
    intro heq
    obtain ⟨ho, hi⟩ := MorphId.ofNode_inj heq
    have hpassed := h.passed
    rw [ho, hid, nextMorphOf_eq hn] at hpassed
    omega
  withoutMorph k m h := by
    refine ⟨contains_withoutMorph.trans h.there, (nextMorphOf_withoutMorph k m).symm ▸ h.passed, ?_⟩
    rw [morphs_withoutMorph, h.gone, ite_self]
  withoutNode n hne h := by
    refine ⟨contains_withoutNode.mpr ⟨hne.symm, h.there⟩, (nextMorphOf_withoutNode n hne).symm ▸ h.passed, ?_⟩
    rw [morphs_withoutNode, h.gone, ite_self]

namespace OutlastsBeside

variable {J : Graph → Prop} (hJ : OutlastsBeside o J)

include hJ

theorem outlastsMorphs : OutlastsMorphs J where
  unlink h hs := hJ.sameFrame h (sameFrame_unlink hs)
  removeEdge h hs := hJ.sameFrame h (sameFrame_removeEdge hs)
  link h hs := hJ.sameFrame h (sameFrame_link hs)
  bump o h := hJ.sameFrame h (.modifyNode _ o fun _ => rfl)
  createMorph _ hf hn h := hJ.createMorph _ hn (hf.node hn).1 h
  withoutMorph _ _ _ _ h := hJ.withoutMorph _ _ h
  choose o _ h := hJ.sameFrame h (.modifyNode _ o fun _ => rfl)
  modify _ _ h := hJ.sameFrame h (.of_eq rfl rfl rfl)

theorem resolve (hf : g.Framed) (name : String) (qualifier : Option String) (h : J g) :
    J (g.resolve name qualifier).2 :=
  resolve_induction h (fun _ _ => hJ.withNode _ _ (hf.unused_mint _ _) h) name qualifier

theorem leaves_deleteNode (h : J g) (hk : k ≠ o) : Leaves (Edit.deleteNode k) g J := by
  have houtlasts := hJ.outlastsMorphs.toOutlasts
  refine ((houtlasts.ensures_deleteNode h k).mono ?_).leaves (houtlasts.refuses_deleteNode h k)
  rintro _ _ ⟨g₁, n, h₁, -, -, rfl⟩
  exact hJ.withoutNode n hk h₁

theorem leaves_run (hf : g.Framed) (h : J g) (guard : Option Guard) {c : Change} (hc : c ≠ .deleteNode o) :
    Leaves (c.run guard) g J := by
  refine .reads_bind (Guard.reads_check guard c) h fun _ _ => ?_
  by_cases hneutral : c.Neutral
  · by_cases hd : ∃ k, c = .deleteNode k
    · obtain ⟨k, rfl⟩ := hd
      have hk : k ≠ o := fun hk => hc (hk ▸ rfl)
      exact (hJ.leaves_deleteNode h hk).map
    · exact hJ.outlastsMorphs.leaves_perform hf h hneutral (not_exists.mp hd)
  · exact (Edit.sameFrame_perform g hneutral).mono fun _ hs => hJ.sameFrame h hs

theorem outlastsDocuments (schema : Schema) : OutlastsDocuments schema fun g => g.Framed ∧ J g where
  resolve name qualifier h := ⟨h.1.resolve name qualifier, hJ.resolve h.1 name qualifier h.2⟩
  addMorph o name h := (outlastsChanges_framed.leaves_addMorph h.1 h.1 o name none).and
    (hJ.outlastsMorphs.leaves_addMorph h.1 h.2 o name none)
  writeEdge k _ _ _ h := (h.1.leaves_writeEdge k _).and <|
    hJ.outlastsMorphs.leaves_writeEdge h.2 (fun name qualifier => hJ.resolve h.1 name qualifier h.2) k
      fun g₁ h₁ _ => hJ.sameFrame h₁ (sameFrame_withRecord g₁ _)

theorem outlastsOperations : OutlastsOperations (· ≠ .deleteNode o) fun g => g.Framed ∧ J g where
  document := hJ.outlastsDocuments
  importNode id name qualifier h := ⟨h.1.importNode id name qualifier,
    importNode_induction h.2 (fun _ _ hfree => hJ.withNode _ _ hfree h.2) name qualifier⟩
  run guard hc h := (Edit.framed_run h.1 guard _).and (hJ.leaves_run h.1 h.2 guard hc)
  updateNode _ _ := nofun
  updateAttribute _ _ _ _ := nofun
  deleteEdges es h := (outlastsChanges_framed.leaves_deleteEdges h.1 es).and
    (hJ.outlastsMorphs.leaves_deleteEdges h.2 es)
  withTransitions ts h := ⟨h.1.withTransitions ts, hJ.sameFrame h.2 (.of_eq rfl rfl rfl)⟩

end OutlastsBeside

/-! ### Making and deleting morphs -/

section

open Edit

/-- A morph gets the number that is next, which is passed by that. -/
theorem Framed.ensures_addMorph (h : g.Framed) (o : NodeId) (name : Option String) (seed : Option MorphId) :
    Ensures (addMorph o name seed) g fun k g' =>
      k = MorphId.ofNode o (g.nextMorphOf o) ∧ g.nextMorphOf o < g'.nextMorphOf o := by
  obtain hrefused | ⟨n, hn, -, hrun⟩ := addMorph_cases h o name
  · obtain ⟨e, he⟩ := hrefused seed
    intro k g' hok
    rw [he] at hok
    cases hok
  · have hid := (h.node hn).1
    have hreaches := outlastsBeside_reaches o (n.nextMorph + 1)
    have hnext (l : MorphId) (name : Option String) :
        (g.withMorph g.names n.withMorph l name).nextMorphOf o = n.nextMorph + 1 := by
      rw [nextMorphOf_withMorph]
      exact if_pos hid.symm
    unfold Ensures
    rw [hrun seed, nextMorphOf_eq hn]
    refine Ensures.reads_bind (reads_seed o seed) fun refs _ => ?_
    refine (Ensures.change (P := fun k g' => k = MorphId.ofNode o n.nextMorph ∧ n.nextMorph + 1 ≤ g'.nextMorphOf o)
      fun k g₁ hs => ?_).bind fun k g₁ ⟨hk, h₁⟩ => ?_
    · rw [createMorph_eq hn hid] at hs
      cases hs
      exact ⟨congrArg (MorphId.ofNode · n.nextMorph) hid, (hnext _ _).ge⟩
    · refine (hreaches.outlastsMorphs.leaves_linkAll h₁ k refs).ensures.bind fun _ g₂ h₂ => ?_
      exact (hreaches.outlastsMorphs.leaves_touchNode h₂ o).ensures.bind fun _ g₃ h₃ => .pure ⟨hk, h₃⟩

/-- Nothing is left of the morph, whatever it referred to. -/
theorem ensures_deleteMorph (g : Graph) (m : MorphId) :
    Ensures (deleteMorph m) g fun _ g' => g'.morphs.get? m = none := by
  refine .demand_bind fun _ _ => .demand_bind fun _ _ => ?_
  split
  · exact .throw_bind _
  · refine .reads_bind (reads_requireFreeMorph m) fun _ _ => ?_
    refine Ensures.bind (P := fun _ _ => True) (fun _ _ _ => trivial) fun edges g₁ _ => ?_
    refine (Ensures.change (P := fun _ g' => g'.morphs.get? m = none) fun _ g₂ hs => ?_).bind fun _ g₂ hgone => ?_
    · cases hm : g₁.morphs.get? m with
      | none => simp [removeMorph, hm] at hs
      | some m' =>
        rw [removeMorph_eq hm] at hs
        cases hs
        rw [morphs_withoutMorph, if_pos rfl]
    · exact (Ensures.modify hgone).bind fun _ _ h => .pure h

end

end Graph

end Morphology
