import Morphology.Proofs.Graph.Holding
import Morphology.Proofs.Graph.Subjects

/-! Graphs that agree on some of their nodes: each has there the same record, the same morphs and the same edges. What
is written at one node is not seen at the others, and written in two graphs it leaves them as much alike as they were.
Graphs that agree on all nodes are one, since their indexes hold nothing of their own. -/

namespace Morphology

theorem Index.ext_items {κ α : Type} [Ord κ] [Ord α] [Std.LawfulEqOrd κ] [Std.LawfulEqOrd α] [Std.TransOrd κ]
    [Std.TransOrd α] [DecidableEq κ] [DecidableEq α] {x y : Index κ α} (h : ∀ k a, a ∈ x.items k ↔ a ∈ y.items k) :
    x = y := by
  obtain ⟨x⟩ := x
  obtain ⟨y⟩ := y
  congr 1
  refine Table.ext_get? fun p => Option.ext fun u => ?_
  have hp := h p.key p.item
  simp only [Index.mem_items, Table.contains_iff] at hp
  exact ⟨fun hu => (hp.mp ⟨u, hu⟩).elim fun _ h' => h', fun hu => (hp.mpr ⟨u, hu⟩).elim fun _ h' => h'⟩

namespace Graph

theorem nodes_upserted (g : Graph) (k : MorphId) (w : EdgeRecord) (o : NodeId) :
    (g.upserted k w).nodes.get? o = if o = w.owner then (g.nodes.get? o).map Node.bump else g.nodes.get? o := by
  rw [upserted, nodes_modifyNode, linking_nodes, withRecord_nodes]

theorem morphs_upserted (g : Graph) (k l : MorphId) (w : EdgeRecord) :
    (g.upserted k w).morphs.get? l = if l = k then (g.morphs.get? l).map (·.insert w.ref) else g.morphs.get? l := by
  rw [upserted, ← withRecord_morphs g w]
  exact morphs_linking

theorem names_upserted (g : Graph) (k : MorphId) (w : EdgeRecord) : (g.upserted k w).names = g.names := by
  obtain ⟨ms, x, h⟩ := linking_cases (g.withRecord w) k w.ref
  rw [upserted, h]
  exact withRecord_names g w

structure Agree (on : NodeId → Prop) (g g' : Graph) : Prop where
  nodes : ∀ o, on o → g'.nodes.get? o = g.nodes.get? o
  holdings : ∀ o, on o → g'.holding o = g.holding o

variable {on : NodeId → Prop} {g g' g'' : Graph} {o p : NodeId} {k l : MorphId} {m : Morph} {n : Node} {e : EdgeRef}
  {w : EdgeRecord}

theorem morphs_holding : (g.holding o).morphs k = some m ↔ g.morphs.get? k = some m ∧ m.owner = o := by
  simp [holding, Option.filter_eq_some_iff]

namespace Agree

theorem of_parts (hn : ∀ o, on o → g'.nodes.get? o = g.nodes.get? o)
    (hm : ∀ k m, on m.owner → (g'.morphs.get? k = some m ↔ g.morphs.get? k = some m))
    (hw : ∀ e w, on w.owner → (g'.record? e = some w ↔ g.record? e = some w)) : Agree on g g' where
  nodes := hn
  holdings o ho := holding_eq (by rw [hn o ho]) (fun k m hmo => hm k m (hmo ▸ ho)) fun e w hwo => hw e w (hwo ▸ ho)

theorem refl (on : NodeId → Prop) (g : Graph) : Agree on g g := ⟨fun _ _ => rfl, fun _ _ => rfl⟩

theorem trans (h : Agree on g g') (h' : Agree on g' g'') : Agree on g g'' where
  nodes o ho := (h'.nodes o ho).trans (h.nodes o ho)
  holdings o ho := (h'.holdings o ho).trans (h.holdings o ho)

theorem symm (h : Agree on g g') : Agree on g' g := ⟨fun o ho => (h.nodes o ho).symm, fun o ho => (h.holdings o ho).symm⟩

theorem mono {on' : NodeId → Prop} (h : Agree on g g') (hon : ∀ o, on' o → on o) : Agree on' g g' :=
  ⟨fun o ho => h.nodes o (hon o ho), fun o ho => h.holdings o (hon o ho)⟩

variable (h : Agree on g g')

include h

theorem morph_iff (ho : on m.owner) : g'.morphs.get? k = some m ↔ g.morphs.get? k = some m := by
  have hk := h.holdings _ ho
  have hleft := morphs_holding (g := g') (o := m.owner) (k := k) (m := m)
  rw [hk, morphs_holding] at hleft
  simpa using hleft.symm

theorem record_iff (ho : on w.owner) : g'.record? e = some w ↔ g.record? e = some w := by
  have he := h.holdings _ ho
  have hleft := edges_holding (g := g') (o := w.owner) (e := e) (w := w)
  rw [he, edges_holding] at hleft
  simpa using hleft.symm

theorem owns (ho : on o) (hk : g.Owns o k) : g'.Owns o k := by
  obtain ⟨m, hm, rfl⟩ := hk
  exact ⟨m, (h.morph_iff ho).mpr hm, rfl⟩

/-- The same node gets the same morph. -/
theorem withMorph {book book' : NameBook} {name : Option String} :
    Agree on (g.withMorph book n l name) (g'.withMorph book' n l name) := by
  refine of_parts (fun o ho => ?_) (fun k m ho => ?_) fun e w ho => ?_
  · rw [nodes_withMorph, nodes_withMorph, h.nodes o ho]
  · rw [morphs_withMorph, morphs_withMorph]
    split
    · rfl
    · exact h.morph_iff ho
  · rw [record?_withMorph, record?_withMorph]
    exact h.record_iff ho

theorem modifyNode (p : NodeId) (f : Node → Node) : Agree on (g.modifyNode p f) (g'.modifyNode p f) := by
  refine of_parts (fun o ho => ?_) (fun k m ho => h.morph_iff ho) fun e w ho => ?_
  · rw [nodes_modifyNode, nodes_modifyNode, h.nodes o ho]
  · have hiff := h.record_iff (e := e) ho
    cases e <;> exact hiff

/-- An edge is written down alike at a node that the graphs agree on. -/
theorem upserted (howner : on w.owner) (hk : g.Owns w.owner k) : Agree on (g.upserted k w) (g'.upserted k w) := by
  obtain ⟨m₀, hm₀, hmo⟩ := hk
  have hm₀' : g'.morphs.get? k = some m₀ := (h.morph_iff (hmo ▸ howner)).mpr hm₀
  refine of_parts (fun o ho => ?_) (fun l m ho => ?_) fun e v ho => ?_
  · rw [nodes_upserted, nodes_upserted, h.nodes o ho]
  · rw [morphs_upserted, morphs_upserted]
    split
    · rename_i hl
      rw [hl, hm₀, hm₀']
    · exact h.morph_iff ho
  · rw [record?_upserted, record?_upserted]
    split
    · rfl
    · exact h.record_iff ho

end Agree

/-! ## Writing elsewhere -/

theorem Confined.agree (h : Confined p g g') (hn : ∀ o, o ≠ p → g'.nodes.get? o = g.nodes.get? o) (hp : ¬on p) :
    Agree on g g' := by
  have hne {o : NodeId} (ho : on o) : o ≠ p := fun hop => hp (hop ▸ ho)
  exact ⟨fun o ho => hn o (hne ho), fun o ho => h.elsewhere (hne ho)⟩

theorem agree_withMorph {book : NameBook} {name : Option String} (hfresh : g.morphs.get? l = none)
    (hn : ∀ n₀, g.nodes.get? n.id = some n₀ → n₀.version ≤ n.version) (hp : ¬on n.id) :
    Agree on g (g.withMorph book n l name) :=
  (confined_withMorph hfresh hn).agree (fun _ ho => by rw [nodes_withMorph, if_neg ho]) hp

theorem agree_bump (g : Graph) (hp : ¬on p) : Agree on g (g.modifyNode p Node.bump) := by
  have hconfined : Confined p g (g.modifyNode p Node.bump) := confined_modifyNode fun n => Nat.le_succ n.version
  exact hconfined.agree (fun _ ho => by rw [nodes_modifyNode, if_neg ho]) hp

namespace Coherent

variable (h : g.Coherent)

include h

/-- An edge that a record takes the place of belongs to the same node. -/
theorem owner_of_replaced (hc : w.IsComposed) (hends : g.HasEnds w.subject) (ho : g.edgeOwner w.ref = some o) :
    o = w.owner := by
  rw [edgeOwner_record] at ho
  obtain ⟨v, hv, rfl⟩ := Option.map_eq_some_iff.mp ho
  have hsubject := congrArg EdgeSubject.owner (h.subject_eq hv hc hends)
  cases v <;> cases w <;> exact hsubject

theorem agree_upserted (hk : g.Owns w.owner k) (hc : w.IsComposed) (hends : g.HasEnds w.subject) (hp : ¬on w.owner) :
    Agree on g (g.upserted k w) := by
  have hstamps := stamps_upserted hk fun _ => h.owner_of_replaced hc hends
  exact hstamps.toConfined.agree (fun _ ho => by rw [nodes_upserted, if_neg ho]) hp

/-- Whether there is an edge to take the place of shows at its owner. -/
theorem hasEdge_mono {g' : Graph} (ha : Agree on g g') (hc : w.IsComposed) (hends : g.HasEnds w.subject)
    (ho : on w.owner) (he : g.hasEdge w.ref = true) : g'.hasEdge w.ref = true := by
  rw [hasEdge_eq] at he ⊢
  obtain ⟨v, hv⟩ := Option.isSome_iff_exists.mp he
  have hvo : v.owner = w.owner := h.owner_of_replaced hc hends (by rw [edgeOwner_record, hv, Option.map_some])
  rw [(ha.record_iff (hvo ▸ ho)).mpr hv, Option.isSome_some]

theorem hasEdge_congr (h' : g'.Coherent) (ha : Agree on g g') (hc : w.IsComposed) (hends : g.HasEnds w.subject)
    (hends' : g'.HasEnds w.subject) (ho : on w.owner) : g'.hasEdge w.ref = g.hasEdge w.ref :=
  Bool.eq_iff_iff.mpr ⟨h'.hasEdge_mono ha.symm hc hends' ho, h.hasEdge_mono ha hc hends ho⟩

/-! ## Agreeing everywhere -/

/-- A node that is not there holds nothing. -/
theorem holding_of_missing (hn : g.nodes.get? o = none) : g.holding o = ⟨none, fun _ => none, fun _ => none⟩ := by
  have hmorphs (k : MorphId) : (g.morphs.get? k).filter (·.owner = o) = none := by
    refine Option.filter_eq_none_iff.mpr fun m hm hmo => ?_
    obtain ⟨n, hn', -⟩ := h.listed hm
    rw [of_decide_eq_true hmo, hn] at hn'
    cases hn'
  have hedges (e : EdgeRef) : (g.record? e).filter (·.owner = o) = none := by
    refine Option.filter_eq_none_iff.mpr fun w hw hwo => ?_
    have howner := (h.record hw).2.2.1
    rw [show w.subject.owner = w.owner by cases w <;> rfl, of_decide_eq_true hwo, Table.contains, hn] at howner
    cases howner
  simp only [holding, hn, hmorphs, hedges, Option.map_none]

/-- The indexes follow from the tables. -/
theorem eq_of_tables (h' : g'.Coherent) (hmorphs : g'.morphs = g.morphs) (hrelations : g'.relations = g.relations)
    (hattributes : g'.attributes = g.attributes) (hnames : g'.names = g.names)
    (htransitions : g'.transitions = g.transitions) : g' = { g with nodes := g'.nodes } := by
  have hreferrers : g'.referrers = g.referrers := Index.ext_items fun e k => by
    rw [h'.referrer, h.referrer, Refers, hmorphs, Refers]
  have houtgoing : g'.outgoing = g.outgoing := Index.ext_items fun o k => by
    rw [h'.outgoing, h.outgoing, hrelations]
  have hincoming : g'.incoming = g.incoming := Index.ext_items fun o k => by
    rw [h'.incoming, h.incoming, hrelations]
  have hrelationType : g'.relationsByType = g.relationsByType := Index.ext_items fun t k => by
    rw [h'.relationType, h.relationType, hrelations]
  have hattributeType : g'.attributesByType = g.attributesByType := Index.ext_items fun t k => by
    rw [h'.attributeType, h.attributeType, hattributes]
  cases g
  cases g'
  simp_all only

theorem ext (h' : g'.Coherent) (ha : Agree (fun _ => True) g g') (hnames : g'.names = g.names)
    (htransitions : g'.transitions = g.transitions) : g' = g := by
  have hnodes : g'.nodes = g.nodes := Table.ext_get? fun o => ha.nodes o trivial
  have hmorphs : g'.morphs = g.morphs := Table.ext_get? fun k => Option.ext fun m => ha.morph_iff trivial
  obtain ⟨hrelations, hattributes⟩ := edges_eq_of_records fun e => Option.ext fun w => ha.record_iff (e := e) trivial
  rw [h.eq_of_tables h' hmorphs hrelations hattributes hnames htransitions, hnodes]

end Coherent

end Graph

end Morphology
