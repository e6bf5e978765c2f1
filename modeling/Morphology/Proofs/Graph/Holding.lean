import Morphology.Proofs.Graph.Extension

/-! What a node holds: its record, its morphs and its edges. `Graph.Confined` is what a change of one node may leave
half way: the others hold what they held, and no version went down. `Graph.Stamps` asks besides that the version of
the node bears witness to the change. -/

namespace Morphology

/-- The node without what is not kept with it. -/
def Node.stored (n : Node) : Node := { n with active := none, version := 0 }

structure Holding where
  node : Option Node
  morphs : MorphId → Option Morph
  edges : EdgeRef → Option EdgeRecord

namespace Graph

def holding (g : Graph) (o : NodeId) : Holding where
  node := (g.nodes.get? o).map Node.stored
  morphs k := (g.morphs.get? k).filter (·.owner = o)
  edges e := (g.record? e).filter (·.owner = o)

def version? (g : Graph) (o : NodeId) : Option Nat := (g.nodes.get? o).map (·.version)

/-- The version of the node is another if what it holds is. -/
def Witnessed (o : NodeId) (g g' : Graph) : Prop :=
  ∀ v, g.version? o = some v → ∃ v', g'.version? o = some v' ∧ v ≤ v' ∧ (g'.holding o ≠ g.holding o → v < v')

structure Confined (p : NodeId) (g g' : Graph) : Prop where
  elsewhere : ∀ {o}, o ≠ p → g'.holding o = g.holding o
  versions : ∀ {o v}, g.version? o = some v → ∃ v', g'.version? o = some v' ∧ v ≤ v'

structure Stamps (p : NodeId) (g g' : Graph) : Prop extends Confined p g g' where
  witnessed : Witnessed p g g'

variable {g g' g'' : Graph} {o p : NodeId} {k : MorphId} {e : EdgeRef} {w : EdgeRecord}

theorem edges_holding : (g.holding o).edges e = some w ↔ g.record? e = some w ∧ w.owner = o := by
  simp [holding, Option.filter_eq_some_iff]

theorem holding_eq (hn : (g'.nodes.get? o).map Node.stored = (g.nodes.get? o).map Node.stored)
    (hm : ∀ k m, m.owner = o → (g'.morphs.get? k = some m ↔ g.morphs.get? k = some m))
    (he : ∀ e w, w.owner = o → (g'.record? e = some w ↔ g.record? e = some w)) : g'.holding o = g.holding o := by
  unfold holding
  rw [hn]
  congr 1
  · funext k
    refine Option.ext fun m => ?_
    simp only [Option.filter_eq_some_iff, decide_eq_true_eq]
    exact and_congr_left (hm k m)
  · funext e
    refine Option.ext fun w => ?_
    simp only [Option.filter_eq_some_iff, decide_eq_true_eq]
    exact and_congr_left (he e w)

theorem edgeOwner_record (g : Graph) (e : EdgeRef) : g.edgeOwner e = (g.record? e).map (·.owner) := by
  cases e <;> simp only [edgeOwner, record?, Option.map_map] <;> rfl

theorem version?_modifyNode {f : Node → Node} :
    (g.modifyNode p f).version? o = if o = p then (g.nodes.get? o).map fun n => (f n).version else g.version? o := by
  unfold version?
  rw [nodes_modifyNode]
  split
  · rw [Option.map_map]
    rfl
  · rfl

theorem holding_modifyNode {f : Node → Node} (hf : ∀ n, (f n).stored = n.stored) :
    (g.modifyNode p f).holding o = g.holding o := by
  refine holding_eq ?_ (fun _ _ _ => Iff.rfl) fun e _ _ => by cases e <;> rfl
  rw [nodes_modifyNode]
  split
  · rw [Option.map_map]
    exact congrArg (Option.map · _) (funext hf)
  · rfl

theorem holding_bump (g : Graph) (p o : NodeId) : (g.modifyNode p Node.bump).holding o = g.holding o :=
  holding_modifyNode fun _ => rfl

namespace Witnessed

theorem refl (o : NodeId) (g : Graph) : Witnessed o g g := fun v hv => ⟨v, hv, le_rfl, fun h => absurd rfl h⟩

theorem trans (h : Witnessed o g g') (h' : Witnessed o g' g'') : Witnessed o g g'' := by
  intro v hv
  obtain ⟨v', hv', hle, hlt⟩ := h v hv
  obtain ⟨v'', hv'', hle', hlt'⟩ := h' v' hv'
  refine ⟨v'', hv'', hle.trans hle', fun hne => ?_⟩
  by_cases hsame : g'.holding o = g.holding o
  · exact hle.trans_lt (hlt' (hsame ▸ hne))
  · exact (hlt hsame).trans_le hle'

end Witnessed

namespace Confined

theorem of_nodes (hn : g'.nodes = g.nodes) (ho : ∀ {o}, o ≠ p → g'.holding o = g.holding o) : Confined p g g' where
  elsewhere := ho
  versions {o v} hv := ⟨v, by rw [version?, hn]; exact hv, le_rfl⟩

theorem refl (p : NodeId) (g : Graph) : Confined p g g := of_nodes rfl fun _ => rfl

theorem trans (h : Confined p g g') (h' : Confined p g' g'') : Confined p g g'' where
  elsewhere ho := (h'.elsewhere ho).trans (h.elsewhere ho)
  versions hv := by
    obtain ⟨v', hv', hle⟩ := h.versions hv
    obtain ⟨v'', hv'', hle'⟩ := h'.versions hv'
    exact ⟨v'', hv'', hle.trans hle'⟩

theorem witnessed (h : Confined p g g') (ho : o ≠ p) : Witnessed o g g' := by
  intro v hv
  obtain ⟨v', hv', hle⟩ := h.versions hv
  exact ⟨v', hv', hle, fun hne => absurd (h.elsewhere ho) hne⟩

theorem stamps (h : Confined p g g') (hsame : g'.holding p = g.holding p) : Stamps p g g' where
  toConfined := h
  witnessed v hv := by
    obtain ⟨v', hv', hle⟩ := h.versions hv
    exact ⟨v', hv', hle, fun hne => absurd hsame hne⟩

end Confined

theorem confined_modifyNode {f : Node → Node} (hf : ∀ n, n.version ≤ (f n).version) :
    Confined p g (g.modifyNode p f) where
  elsewhere {o} ho := by
    refine holding_eq ?_ (fun _ _ _ => Iff.rfl) fun e _ _ => by cases e <;> rfl
    rw [nodes_modifyNode, if_neg ho]
  versions {o v} hv := by
    obtain ⟨n, hn, rfl⟩ := Option.map_eq_some_iff.mp hv
    rw [version?_modifyNode, version?, hn]
    split
    · exact ⟨_, rfl, hf n⟩
    · exact ⟨_, rfl, le_rfl⟩

/-- A node that is touched last has a version above all earlier ones. -/
theorem Confined.stamps_modifyNode (h : Confined p g g') {f : Node → Node} (hf : ∀ n, n.version < (f n).version) :
    Stamps p g (g'.modifyNode p f) where
  toConfined := h.trans (confined_modifyNode fun n => (hf n).le)
  witnessed v hv := by
    obtain ⟨v', hv', hle⟩ := h.versions hv
    obtain ⟨n, hn, rfl⟩ := Option.map_eq_some_iff.mp hv'
    have hlt : v < (f n).version := hle.trans_lt (hf n)
    exact ⟨(f n).version, by rw [version?_modifyNode, if_pos rfl, hn]; rfl, hlt.le, fun _ => hlt⟩

theorem Confined.touched (h : Confined p g g') : Stamps p g (g'.modifyNode p Node.bump) :=
  h.stamps_modifyNode fun _ => Nat.lt_succ_self _

namespace Stamps

theorem refl (p : NodeId) (g : Graph) : Stamps p g g := (Confined.refl p g).stamps rfl

theorem everywhere (h : Stamps p g g') (o : NodeId) : Witnessed o g g' := by
  by_cases ho : o = p
  · exact ho ▸ h.witnessed
  · exact h.toConfined.witnessed ho

end Stamps

theorem confined_linking (hk : g.Owns p k) : Confined p g (g.linking k e) := by
  obtain ⟨m₀, hm₀, rfl⟩ := hk
  have hnodes : (g.linking k e).nodes = g.nodes := by
    obtain ⟨ms, x, h⟩ := linking_cases g k e
    rw [h]
  refine .of_nodes hnodes fun {o} ho => ?_
  refine holding_eq (by rw [hnodes]) (fun l m hm => ?_) fun _ _ _ => by rw [record?_linking]
  rw [morphs_linking]
  split
  · -- The morph belongs to `p` with the reference as without it.
    rename_i hl
    rw [hl, hm₀, Option.map_some]
    refine iff_of_false ?_ ?_
    · rintro ⟨⟩
      exact ho (hm.symm.trans (Morph.insert_owner))
    · rintro ⟨⟩
      exact ho hm.symm
  · exact Iff.rfl

theorem Pruned.record?_eq {drops : MorphId → EdgeRef → Bool} {gone : EdgeRef → Bool} (hp : Pruned drops gone g g')
    (e : EdgeRef) : g'.record? e = if gone e then none else g.record? e := by
  cases e with
  | relation id =>
    simp only [record?, hp.relations]
    split <;> rfl
  | attr id =>
    simp only [record?, hp.attributes]
    split <;> rfl

/-- What only `p` loses of its references and edges. -/
theorem Pruned.holding_eq {drops : MorphId → EdgeRef → Bool} {gone : EdgeRef → Bool} (hp : Pruned drops gone g g')
    (hd : ∀ k e m, g.morphs.get? k = some m → m.contains e = true → drops k e = true → m.owner ≠ o)
    (hg : ∀ e, gone e = true → g.edgeOwner e ≠ some o) : g'.holding o = g.holding o := by
  refine Graph.holding_eq ?_ (fun k m hm => ?_) fun e w hw => ?_
  · have hstored (ns : Option Node) : ns.map Node.stored = (ns.map Node.unversioned).map Node.stored := by
      cases ns <;> rfl
    rw [hstored, hp.nodes, ← hstored]
  · rw [hp.morphs]
    refine Morph.map_keep_eq_some fun m₀ hm₀ ho => Morph.keep_eq_self fun e he => ?_
    have hdrop : drops k e = false := Bool.eq_false_iff.mpr fun hdrop => hd k e m₀ hm₀ he hdrop (ho.trans hm)
    rw [hdrop, Bool.not_false]
  · rw [hp.record?_eq]
    split
    · rename_i hgone
      refine iff_of_false nofun fun he => hg e hgone ?_
      rw [edgeOwner_record, he, Option.map_some, hw]
    · exact Iff.rfl

theorem Pruned.confined {drops : MorphId → EdgeRef → Bool} {gone : EdgeRef → Bool} (hp : Pruned drops gone g g')
    (hnodes : g'.nodes = g.nodes)
    (hd : ∀ k e m, g.morphs.get? k = some m → m.contains e = true → drops k e = true → m.owner = p)
    (hg : ∀ e o, gone e = true → g.edgeOwner e = some o → o = p) : Confined p g g' := by
  refine .of_nodes hnodes fun {o} ho => hp.holding_eq (fun k e m hm he hdrop hmo => ho ?_) fun e hgone howner => ho ?_
  · exact hmo.symm.trans (hd k e m hm he hdrop)
  · exact hg e o hgone howner

theorem confined_withMorph {book : NameBook} {n : Node} {l : MorphId} {name : Option String}
    (hfresh : g.morphs.get? l = none) (hn : ∀ n₀, g.nodes.get? n.id = some n₀ → n₀.version ≤ n.version) :
    Confined n.id g (g.withMorph book n l name) where
  elsewhere {o} ho := by
    refine holding_eq (by rw [nodes_withMorph, if_neg ho]) (fun k m hm => ?_) fun _ _ _ => by rw [record?_withMorph]
    rw [morphs_withMorph]
    split
    · rename_i hk
      rw [hk, hfresh]
      refine iff_of_false ?_ nofun
      rintro ⟨⟩
      exact ho hm.symm
    · exact Iff.rfl
  versions {o v} hv := by
    obtain ⟨n₀, hn₀, rfl⟩ := Option.map_eq_some_iff.mp hv
    unfold version?
    rw [nodes_withMorph]
    split
    · rename_i ho
      exact ⟨n.version, rfl, hn n₀ (ho ▸ hn₀)⟩
    · exact ⟨n₀.version, by rw [hn₀]; rfl, le_rfl⟩

theorem confined_withoutMorph {m : Morph} (hm : g.morphs.get? k = some m) :
    Confined m.owner g (g.withoutMorph k m) where
  elsewhere {o} ho := by
    refine holding_eq (by rw [nodes_withoutMorph, if_neg ho]) (fun l m' hm' => ?_) fun e _ _ => by cases e <;> rfl
    rw [morphs_withoutMorph]
    split
    · rename_i hl
      rw [hl, hm]
      refine iff_of_false nofun ?_
      rintro ⟨⟩
      exact ho hm'.symm
    · exact Iff.rfl
  versions {o v} hv := by
    obtain ⟨n, hn, rfl⟩ := Option.map_eq_some_iff.mp hv
    unfold version?
    rw [nodes_withoutMorph]
    split
    · exact ⟨n.version, by rw [hn]; rfl, le_rfl⟩
    · exact ⟨n.version, by rw [hn]; rfl, le_rfl⟩

/-- The other nodes do not see a node go that has nothing but its morphs. -/
theorem Framed.witnessed_withoutNode (h : g.Framed) {n : Node} (hn : g.nodes.get? p = some n) (ho : o ≠ p) :
    Witnessed o g (g.withoutNode p n) := by
  intro v hv
  refine ⟨v, by rw [version?, nodes_withoutNode, if_neg ho]; exact hv, le_rfl, fun hne => absurd ?_ hne⟩
  refine holding_eq (by rw [nodes_withoutNode, if_neg ho]) (fun k m hm => ?_) fun e _ _ => by cases e <;> rfl
  rw [morphs_withoutNode]
  split
  · rename_i hk
    refine iff_of_false nofun fun hm' => ho ?_
    exact hm.symm.trans ((h.mem_morphs_iff hn hm').mp hk)
  · exact Iff.rfl

/-- Writing one edge down is seen by the node that had it before and the one that has it now. -/
theorem holding_record (hn : g'.nodes = g.nodes) (hm : g'.morphs = g.morphs)
    (hr : ∀ e, g'.record? e = if e = w.ref then some w else g.record? e) (ho : o ≠ w.owner) :
    g'.holding o = g.holding o ↔ g.edgeOwner w.ref ≠ some o := by
  constructor
  · intro hsame howner
    rw [edgeOwner_record] at howner
    obtain ⟨w₀, hw₀, hw₀o⟩ := Option.map_eq_some_iff.mp howner
    have hstill := edges_holding.mpr ⟨hw₀, hw₀o⟩
    rw [← hsame, edges_holding, hr, if_pos rfl] at hstill
    obtain ⟨⟨⟩, hwo⟩ := hstill
    exact ho hwo.symm
  · intro hother
    refine holding_eq (by rw [hn]) (fun _ _ _ => by rw [hm]) fun e v hv => ?_
    rw [hr]
    split
    · rename_i he
      refine iff_of_false ?_ fun hold => hother ?_
      · rintro ⟨⟩
        exact ho hv.symm
      · rw [edgeOwner_record, ← he, hold, Option.map_some, hv]
    · exact Iff.rfl

theorem confined_record (hn : g'.nodes = g.nodes) (hm : g'.morphs = g.morphs)
    (hr : ∀ e, g'.record? e = if e = w.ref then some w else g.record? e)
    (howner : ∀ o, g.edgeOwner w.ref = some o → o = w.owner) : Confined w.owner g g' :=
  .of_nodes hn fun ho => (holding_record hn hm hr ho).mpr fun hold => ho (howner _ hold)

theorem holding_upserted (hk : g.Owns w.owner k) (ho : o ≠ w.owner) :
    (g.upserted k w).holding o = g.holding o ↔ g.edgeOwner w.ref ≠ some o := by
  have hk' : (g.withRecord w).Owns w.owner k := (grown_withRecord g w).owns hk
  rw [upserted, holding_bump, (confined_linking hk').elsewhere ho]
  exact holding_record (withRecord_nodes g w) (withRecord_morphs g w) (fun _ => record?_withRecord) ho

theorem stamps_upserted (hk : g.Owns w.owner k) (howner : ∀ o, g.edgeOwner w.ref = some o → o = w.owner) :
    Stamps w.owner g (g.upserted k w) := by
  have hk' : (g.withRecord w).Owns w.owner k := (grown_withRecord g w).owns hk
  have hrecord : Confined w.owner g (g.withRecord w) :=
    confined_record (withRecord_nodes g w) (withRecord_morphs g w) (fun _ => record?_withRecord) howner
  exact (hrecord.trans (confined_linking hk')).touched

end Graph

end Morphology
