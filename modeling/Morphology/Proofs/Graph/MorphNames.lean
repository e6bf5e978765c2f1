import Morphology.Proofs.Session.Attainable

/-! What tells the morphs of a node apart. Each is listed once, the basic one has no name, and no operation gives two
of them the same name, in whatever spelling. -/

namespace Morphology

namespace Graph

structure MorphsApart (g : Graph) : Prop where
  once : ∀ {o n}, g.nodes.get? o = some n → n.morphs.Nodup
  basic : ∀ {m}, g.morphs.get? (MorphId.ofNode m.owner 0) = some m → m.name = none
  spelled : ∀ {k m}, g.morphs.get? k = some m → Text.collapse? m.name = m.name
  distinct : ∀ {k l m m' a b}, g.morphs.get? k = some m → g.morphs.get? l = some m' → m.owner = m'.owner →
    m.name = some a → m'.name = some b → Text.fold a = Text.fold b → k = l

variable {g g' : Graph} {o : NodeId} {n : Node} {name : Option String}

theorem morphsApart_empty (space : Namespace) : (empty space).MorphsApart where
  once h := by cases h
  basic h := by cases h
  spelled h := by cases h
  distinct h := by cases h

namespace MorphsApart

variable (h : g.MorphsApart)

include h

/-- Morphs may go, and what they refer to may change. -/
theorem reduce (hnodes : ∀ o n', g'.nodes.get? o = some n' → ∃ n, g.nodes.get? o = some n ∧ n'.morphs.Sublist n.morphs)
    (hmorphs : ∀ k m', g'.morphs.get? k = some m' → ∃ m, g.morphs.get? k = some m ∧ m.bare = m'.bare) :
    g'.MorphsApart where
  once {o n'} hn' := by
    obtain ⟨n, hn, hsub⟩ := hnodes o n' hn'
    exact (h.once hn).sublist hsub
  basic {m'} hm' := by
    obtain ⟨m, hm, hb⟩ := hmorphs _ m' hm'
    obtain ⟨-, hname, howner⟩ := Morph.bare_inj hb
    rw [← hname]
    exact h.basic (howner ▸ hm)
  spelled {k m'} hm' := by
    obtain ⟨m, hm, hb⟩ := hmorphs k m' hm'
    rw [← (Morph.bare_inj hb).2.1]
    exact h.spelled hm
  distinct {k l m₁' m₂' a b} hm₁' hm₂' howner ha hb hfold := by
    obtain ⟨m₁, hm₁, hbare₁⟩ := hmorphs k m₁' hm₁'
    obtain ⟨m₂, hm₂, hbare₂⟩ := hmorphs l m₂' hm₂'
    obtain ⟨-, hname₁, howner₁⟩ := Morph.bare_inj hbare₁
    obtain ⟨-, hname₂, howner₂⟩ := Morph.bare_inj hbare₂
    exact h.distinct hm₁ hm₂ (by rw [howner₁, howner, howner₂]) (hname₁.trans ha) (hname₂.trans hb) hfold

theorem sameFrame (hs : g.SameFrame g') : g'.MorphsApart := by
  refine h.reduce (fun o n' hn' => ?_) fun _ _ => hs.symm.morph
  obtain ⟨n, hn, hf⟩ := hs.symm.node hn'
  obtain ⟨-, -, -, hmorphs, -⟩ := Node.frame_inj hf
  exact ⟨n, hn, hmorphs ▸ .refl _⟩

theorem withMorph {book : NameBook} {l : MorphId} (honce : n.morphs.Nodup)
    (hbasic : l = MorphId.ofNode n.id 0 → name = none) (hname : g.FreeName n.id name) :
    (g.withMorph book n l name).MorphsApart where
  once {o n'} hn' := by
    rw [nodes_withMorph] at hn'
    split at hn'
    · cases hn'
      exact honce
    · exact h.once hn'
  basic {m} hm := by
    rw [morphs_withMorph] at hm
    split at hm
    · rename_i hl
      cases hm
      exact hbasic hl.symm
    · exact h.basic hm
  spelled {k m} hm := by
    rw [morphs_withMorph] at hm
    split at hm
    · cases hm
      exact hname.spelled
    · exact h.spelled hm
  distinct {k k' m m' a b} hm hm' howner ha hb hfold := by
    rw [morphs_withMorph] at hm hm'
    split at hm <;> split at hm' <;> rename_i hk hk'
    · rw [hk, hk']
    · cases hm
      exact absurd hfold.symm (hname.free hm' howner.symm hb ha)
    · cases hm'
      exact absurd hfold (hname.free hm howner ha hb)
    · exact h.distinct hm hm' howner ha hb hfold

theorem withNode (id : NodeId) (name : String) (qualifier : Option String) :
    (g.withNode id name qualifier).MorphsApart :=
  h.withMorph (List.nodup_singleton _) (fun _ => rfl) (g.freeName_none id)

theorem resolve (name : String) (qualifier : Option String) : (g.resolve name qualifier).2.MorphsApart :=
  resolve_induction h (fun _ _ => h.withNode _ _ _) name qualifier

theorem importNode (id : NodeId) (name : String) (qualifier : Option String) :
    (g.importNode id name qualifier).2.MorphsApart :=
  importNode_induction h (fun _ _ _ => h.withNode _ _ _) name qualifier

theorem createMorph (hf : g.Framed) (hn : g.nodes.get? o = some n) (hname : g.FreeName o name) :
    (g.withMorph g.names n.withMorph (MorphId.ofNode n.id n.nextMorph) name).MorphsApart := by
  obtain ⟨rfl, hnum⟩ := hf.node hn
  refine h.withMorph (n := n.withMorph) (Morph.nodup_concat (h.once hn) fun hin => ?_) (fun hbasic => ?_) hname
  · obtain ⟨m, hm, -⟩ := hf.present hn hin
    rw [hf.fresh_morph hn] at hm
    cases hm
  · exact absurd hbasic hnum.fresh_ne_basic

theorem withoutMorph (k : MorphId) (m : Morph) : (g.withoutMorph k m).MorphsApart := by
  refine h.reduce (fun o n' hn' => ?_) fun l m' hm' => ?_
  · rw [nodes_withoutMorph] at hn'
    split at hn'
    · obtain ⟨n, hn, rfl⟩ := Option.map_eq_some_iff.mp hn'
      exact ⟨n, hn, List.filter_sublist⟩
    · exact ⟨n', hn', .refl _⟩
  · rw [morphs_withoutMorph] at hm'
    split at hm'
    · cases hm'
    · exact ⟨m', hm', rfl⟩

theorem withoutNode (o : NodeId) (n : Node) : (g.withoutNode o n).MorphsApart := by
  refine h.reduce (fun k n' hn' => ?_) fun l m' hm' => ?_
  · rw [nodes_withoutNode] at hn'
    split at hn'
    · cases hn'
    · exact ⟨n', hn', .refl _⟩
  · rw [morphs_withoutNode] at hm'
    split at hm'
    · cases hm'
    · exact ⟨m', hm', rfl⟩

end MorphsApart

theorem outlastsChanges_morphsApart : OutlastsChanges MorphsApart where
  unlink h hs := h.sameFrame (sameFrame_unlink hs)
  removeEdge h hs := h.sameFrame (sameFrame_removeEdge hs)
  link h hs := h.sameFrame (sameFrame_link hs)
  bump o h := h.sameFrame (.modifyNode _ o fun _ => rfl)
  createMorph hname hf hn h := h.createMorph hf hn hname
  withoutMorph _ _ _ _ h := h.withoutMorph _ _
  withoutNode _ _ _ h := h.withoutNode _ _
  choose o _ h := h.sameFrame (.modifyNode _ o fun _ => rfl)
  modify _ _ h := h.sameFrame (.of_eq rfl rfl rfl)

theorem MorphsApart.leaves_run (h : g.MorphsApart) (hf : g.Framed) (guard : Option Guard) (c : Change) :
    Leaves (c.run guard) g MorphsApart := by
  by_cases hc : c.Neutral
  · exact outlastsChanges_morphsApart.leaves_run hf h guard hc
  · exact .reads_bind (Guard.reads_check guard c) h fun _ _ =>
      (Edit.sameFrame_perform g hc).mono fun _ hs => h.sameFrame hs

theorem outlastsOperations_morphsApart : OutlastsOperations (fun _ => True) fun g => g.Framed ∧ g.MorphsApart where
  document _ := {
    resolve := fun name qualifier h => ⟨h.1.resolve name qualifier, h.2.resolve name qualifier⟩
    addMorph := fun o name h => (outlastsChanges_framed.leaves_addMorph h.1 h.1 o name none).and
      (outlastsChanges_morphsApart.leaves_addMorph h.1 h.2 o name none)
    writeEdge := fun k _ _ _ h => (h.1.leaves_writeEdge k _).and <|
      outlastsChanges_morphsApart.leaves_writeEdge h.2 h.2.resolve k fun g₁ h₁ _ =>
        h₁.sameFrame (sameFrame_withRecord g₁ _) }
  importNode id name qualifier h := ⟨h.1.importNode id name qualifier, h.2.importNode id name qualifier⟩
  run guard _ h := (Edit.framed_run h.1 guard _).and (h.2.leaves_run h.1 guard _)
  updateNode _ _ := trivial
  updateAttribute _ _ _ _ := trivial
  deleteEdges es h := (outlastsChanges_framed.leaves_deleteEdges h.1 es).and
    (outlastsChanges_morphsApart.leaves_deleteEdges h.2 es)
  withTransitions ts h := ⟨h.1.withTransitions ts, h.2.sameFrame (.of_eq rfl rfl rfl)⟩

end Graph

theorem Session.Attainable.morphsApart {s : Session} (h : s.Attainable) : s.graph.MorphsApart :=
  (h.holds (I := fun g => g.Framed ∧ g.MorphsApart)
    (fun space => ⟨Graph.framed_empty space, Graph.morphsApart_empty space⟩) Graph.outlastsOperations_morphsApart).2

end Morphology
