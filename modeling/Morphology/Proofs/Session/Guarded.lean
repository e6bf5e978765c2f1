import Morphology.Proofs.Session.Versions

/-! What a guard with a stale version keeps out. Changes written to the guarded node are refused; of the others,
deleting a node that the guarded one has relations to is let through, and takes these relations from it. -/

namespace Morphology

/-- The change is written to another node and changes what `o` holds: it takes relations of `o` along with their
target, or writes an edge of `o` down as one of its own. -/
def Change.Overreaches (g : Graph) (o : NodeId) : Change → Prop
  | .deleteNode p => p ≠ o ∧ ∃ k r, g.relations.get? k = some r ∧ r.source = o ∧ r.target = p
  | .upsertRelation _ r => r.source ≠ o ∧ g.edgeOwner (.relation r.id) = some o
  | .upsertAttribute _ a => a.owner ≠ o ∧ g.edgeOwner (.attr a.id) = some o
  | _ => False

open Morphology.Graph

variable {g g' : Graph} {o p : NodeId}

theorem Graph.relation_of_edgeAt (ho : o ≠ p) {e : EdgeRef} (howner : g.edgeOwner e = some o) (he : g.EdgeAt p e) :
    ∃ k r, g.relations.get? k = some r ∧ r.source = o ∧ r.target = p := by
  cases e with
  | relation k =>
    obtain ⟨r, hr, hend⟩ := he
    rw [edgeOwner, hr] at howner
    cases howner
    exact ⟨k, r, hr, rfl, hend.resolve_left ho⟩
  | attr k =>
    obtain ⟨a, ha, hend⟩ := he
    rw [edgeOwner, ha] at howner
    cases howner
    exact absurd hend ho

namespace Deletion.Exact

variable {d : Deleted} (h : g.Sound) (hx : (Deletion.ofNode g p).Exact d g g') (ho : o ≠ p)

include h hx ho

/-- The lists of morphs of the other nodes have none of the deleted ones in them. -/
theorem stored_kept : (g'.nodes.get? o).map Node.stored = (g.nodes.get? o).map Node.stored := by
  have hlist {n : Node} (hn : g.nodes.get? o = some n) : n.withoutMorphs d.morphs = n := by
    refine Node.withoutMorphs_of_disjoint (h.node hn).2 fun k hk hgone => ho ?_
    obtain ⟨m, hm, hmo⟩ := (hx.morphs.2 k).mp hgone
    exact ((h.framed.mem_morphs_iff hn hm).mp hk).symm.trans hmo
  have hstored (ns : Option Node) : ns.map Node.stored = (ns.map Node.unversioned).map Node.stored := by
    cases ns <;> rfl
  rw [hstored, hx.node_kept o ho, Option.map_map]
  exact Option.map_congr fun n hn => by rw [Function.comp_apply, hlist hn]; rfl

theorem holding_eq (hfar : ∀ e, g.edgeOwner e = some o → ¬g.EdgeAt p e) : g'.holding o = g.holding o := by
  classical
  refine Graph.holding_eq (hx.stored_kept h ho) (fun k m hm => ?_) fun e w hw => ?_
  · by_cases hk : (Deletion.ofNode g p).morphs k
    · rw [Table.contains_eq_false.mp (hx.morph_gone k hk)]
      obtain ⟨m₀, hm₀, hmo⟩ := hk
      refine iff_of_false (Option.some_ne_none m).symm fun hm' => ho ?_
      rw [hm₀] at hm'
      cases hm'
      exact hm.symm.trans hmo
    · rw [hx.morph_kept k hk]
      refine Morph.map_keep_eq_some fun m₀ hm₀ hmo => Morph.keep_eq_self fun e he => ?_
      rw [decide_eq_true_eq]
      exact hfar e ((h.owned hm₀ he).trans (by rw [hmo, hm]))
  · by_cases he : g.EdgeAt p e
    · have hgone := hx.edge_gone e he
      rw [hasEdge_eq, Option.isSome_eq_false_iff, Option.isNone_iff_eq_none] at hgone
      rw [hgone]
      refine iff_of_false (Option.some_ne_none w).symm fun hold => hfar e ?_ he
      rw [edgeOwner_record, hold, Option.map_some, hw]
    · have hkept : g'.record? e = g.record? e := by
        cases e with
        | relation k => rw [record?, hx.relation_kept k he, record?]
        | attr k => rw [record?, hx.attr_kept k he, record?]
      rw [hkept]

theorem holding_iff : g'.holding o ≠ g.holding o ↔ (Change.deleteNode p).Overreaches g o := by
  constructor
  · intro hne
    refine ⟨ho.symm, ?_⟩
    by_contra hnone
    exact hne (hx.holding_eq h ho fun e howner he => hnone (relation_of_edgeAt ho howner he))
  · rintro ⟨-, k, r, hr, rfl, rfl⟩ hsame
    have hgone := hx.edge_gone (.relation k) ⟨r, hr, Or.inr rfl⟩
    have hstill : (g.holding r.source).edges (.relation k) = some (.relation r) :=
      edges_holding.mpr ⟨by rw [record?, hr, Option.map_some], rfl⟩
    rw [← hsame, edges_holding] at hstill
    rw [hasEdge_eq, hstill.1] at hgone
    cases hgone

end Deletion.Exact

namespace Guard

open Edit

variable {n : Node} {v : Nat}

theorem checkNode_stale (hn : g.nodes.get? o = some n) (hv : n.version ≠ v) :
    checkNode (some ⟨o, v⟩) o g = .error (.conflict ⟨o, v, n.version⟩) g := by
  have hthere : demand (·.requireNode o) g = .ok n g := by
    simp only [demand, requireNode_eq_ok.mpr hn]
  simp only [checkNode, if_true]
  refine (bind_ok hthere).trans ?_
  rw [if_neg hv]
  rfl

theorem checkMorph_stale (hn : g.nodes.get? o = some n) (hv : n.version ≠ v) {k : MorphId}
    (hk : (g.morphs.get? k).map (·.owner) = some o) :
    checkMorph (some ⟨o, v⟩) k g = .error (.conflict ⟨o, v, n.version⟩) g := by
  obtain ⟨m, hm, rfl⟩ := Option.map_eq_some_iff.mp hk
  have hthere : demand (·.requireMorph k) g = .ok m g := by
    simp only [demand, requireMorph_eq_ok.mpr hm]
  exact (bind_ok hthere).trans (checkNode_stale hn hv)

theorem checkEdge_stale (hn : g.nodes.get? o = some n) (hv : n.version ≠ v) {e : EdgeRef}
    (he : g.edgeOwner e = some o) : checkEdge (some ⟨o, v⟩) e g = .error (.conflict ⟨o, v, n.version⟩) g := by
  have hthere : demand (·.requireEdge e) g = .ok () g := by
    simp only [demand, requireEdge, hasEdge_of_owner he, if_true]
  have hread : (get : Edit Graph) g = .ok g g := rfl
  refine (bind_ok hthere).trans ((bind_ok hread).trans ?_)
  rw [he]
  exact checkNode_stale hn hv

/-- Only choosing the active morph is not checked. -/
theorem check_stale (hn : g.nodes.get? o = some n) (hv : n.version ≠ v) {c : Change}
    (hc : ∀ p k, c ≠ .switchActive p k) (ho : c.node? g = some o) :
    check (some ⟨o, v⟩) c g = .error (.conflict ⟨o, v, n.version⟩) g := by
  cases c with
  | addMorph node _ _ =>
    cases ho
    exact checkNode_stale hn hv
  | switchActive node morph => exact absurd rfl (hc node morph)
  | deleteMorph morph => exact checkMorph_stale hn hv ho
  | copyRef _ _ target => exact checkMorph_stale hn hv ho
  | moveRef _ _ target => exact checkMorph_stale hn hv ho
  | unlistRef _ morph => exact checkMorph_stale hn hv ho
  | deleteEdge edge => exact checkEdge_stale hn hv ho
  | upsertRelation _ relation =>
    cases ho
    exact checkNode_stale hn hv
  | upsertAttribute _ a =>
    cases ho
    exact checkNode_stale hn hv
  | updateRelation id _ => exact checkEdge_stale hn hv ho
  | updateAttribute id _ _ _ => exact checkEdge_stale hn hv ho
  | updateNode node _ =>
    cases ho
    exact checkNode_stale hn hv
  | deleteNode node =>
    cases ho
    exact checkNode_stale hn hv

end Guard

namespace Change

open Edit

variable {c : Change}

/-- A change is written to one node, and what another one holds is different after it only where it overreaches. -/
theorem ensures_reach (h : g.Sound) (c : Change) :
    Ensures c.perform g fun _ g' =>
      ∃ p, c.node? g = some p ∧ ∀ o, o ≠ p → (g'.holding o ≠ g.holding o ↔ c.Overreaches g o) := by
  have hlocal {c : Change} (hc : c.Plain) (hd : ∀ p, c ≠ .deleteNode p) (hover : ∀ o, ¬c.Overreaches g o) :
      Ensures c.perform g fun _ g' =>
        ∃ p, c.node? g = some p ∧ ∀ o, o ≠ p → (g'.holding o ≠ g.holding o ↔ c.Overreaches g o) :=
    (stamps_perform h hc hd).mono fun _ g' ⟨p, hp, hw⟩ =>
      ⟨p, hp, fun o ho => iff_of_false (not_not.mpr (hw.elsewhere ho)) (hover o)⟩
  cases c with
  | upsertRelation k r =>
    refine (ensures_upsertRelation g k r).map fun _ g' ⟨hk, _, _, _, hg'⟩ => ⟨r.source, rfl, fun o ho => ?_⟩
    have hseen : g'.holding o = g.holding o ↔ g.edgeOwner (.relation r.id) ≠ some o :=
      hg' ▸ holding_upserted (w := .relation r) hk ho
    exact ⟨fun hne => ⟨ho.symm, not_not.mp (mt hseen.mpr hne)⟩, fun ⟨_, howner⟩ hsame => hseen.mp hsame howner⟩
  | upsertAttribute k a =>
    refine (ensures_upsertAttribute g k a).map fun _ g' ⟨hk, _, _, _, hg'⟩ => ⟨a.owner, rfl, fun o ho => ?_⟩
    have hseen : g'.holding o = g.holding o ↔ g.edgeOwner (.attr a.id) ≠ some o :=
      hg' ▸ holding_upserted (w := .attr a) hk ho
    exact ⟨fun hne => ⟨ho.symm, not_not.mp (mt hseen.mpr hne)⟩, fun ⟨_, howner⟩ hsame => hseen.mp hsame howner⟩
  | deleteNode p =>
    refine (allOrNothing_deleteNode h p).ensures.map fun d g' ⟨_, hx⟩ => ⟨p, rfl, fun o ho => ?_⟩
    exact hx.holding_iff h ho
  | _ => exact hlocal trivial nofun fun _ => id

/-- A guard only adds a refusal. -/
theorem perform_of_run {guard : Option Guard} {outcome : Outcome} (hr : c.run guard g = .ok outcome g') :
    c.perform g = .ok outcome g' := by
  have hchecked : Ensures (c.run guard) g fun a g₁ => c.perform g = .ok a g₁ :=
    .reads_bind (Guard.reads_check guard c) fun _ _ _ _ hp => hp
  exact hchecked outcome g' hr

theorem run_stale {n : Node} {v : Nat} (hn : g.nodes.get? o = some n) (hv : n.version ≠ v)
    (hc : ∀ p k, c ≠ .switchActive p k) (ho : c.node? g = some o) :
    c.run (some ⟨o, v⟩) g = .error (.conflict ⟨o, v, n.version⟩) g :=
  bind_error (Guard.check_stale hn hv hc ho)

end Change

namespace Session

/-- A guard with a stale version refuses what is written to its node. Other changes it lets through, and the node is
changed by them exactly where they overreach. -/
theorem run_of_staleGuard {s : Session} {o : NodeId} {n : Node} {v : Nat} (hn : s.graph.nodes.get? o = some n)
    (hv : n.version ≠ v) {c : Change} (hc : ∀ p k, c ≠ .switchActive p k) :
    (c.node? s.graph = some o → c.run (some ⟨o, v⟩) s.graph = .error (.conflict ⟨o, v, n.version⟩) s.graph) ∧
    (s.Reachable →
      (∀ outcome g', c.run none s.graph = .ok outcome g' → g'.holding o ≠ s.graph.holding o →
        ¬c.Overreaches s.graph o → c.run (some ⟨o, v⟩) s.graph = .error (.conflict ⟨o, v, n.version⟩) s.graph) ∧
      (∀ e g', c.run (some ⟨o, v⟩) s.graph = .error e g' → g' = s.graph) ∧
      ∀ outcome g', c.run (some ⟨o, v⟩) s.graph = .ok outcome g' →
        (g'.holding o ≠ s.graph.holding o ↔ c.Overreaches s.graph o) ∧
        (c.Plain → g'.holding o ≠ s.graph.holding o → ∃ p, c = .deleteNode p)) := by
  refine ⟨Change.run_stale hn hv hc, fun hs => ⟨fun outcome g' hr hne hover => ?_, fun e g' hr => ?_, ?_⟩⟩
  · obtain ⟨p, hp, hreach⟩ := Change.ensures_reach hs.sound c outcome g' (Change.perform_of_run hr)
    by_cases ho : o = p
    · exact Change.run_stale hn hv hc (ho ▸ hp)
    · exact absurd ((hreach o ho).mp hne) hover
  · exact (Change.allOrNothing_run hs.sound _ c).unchanged hr
  · intro outcome g' hr
    have hother : c.node? s.graph ≠ some o := by
      intro ho
      rw [Change.run_stale hn hv hc ho] at hr
      cases hr
    have hok := Change.perform_of_run hr
    obtain ⟨p, hp, hreach⟩ := Change.ensures_reach hs.sound c outcome g' hok
    have ho : o ≠ p := fun ho => hother (ho ▸ hp)
    refine ⟨hreach o ho, fun hplain hne => ?_⟩
    by_contra hd
    obtain ⟨q, hq, hw⟩ := Change.stamps_perform hs.sound hplain (not_exists.mp hd) outcome g' hok
    exact hne (hw.elsewhere fun hoq => hother (hoq ▸ hq))

/-- Deleting the worm is not written to the crow, and takes the relation that the crow has to it. -/
theorem run_of_fedCrow_stale : ∃ n outcome g', fedCrow.graph.nodes.get? ⟨"crow"⟩ = some n ∧ n.version ≠ 1 ∧
    Change.run (some ⟨⟨"crow"⟩, 1⟩) (.deleteNode ⟨"worm"⟩) fedCrow.graph = .ok outcome g' ∧
    g'.holding ⟨"crow"⟩ ≠ fedCrow.graph.holding ⟨"crow"⟩ := by
  have hn : ∃ n, fedCrow.graph.nodes.get? ⟨"crow"⟩ = some n ∧ n.version = 2 := ⟨_, rfl, rfl⟩
  obtain ⟨n, hn, hv⟩ := hn
  have hstale : n.version ≠ 1 := by
    rw [hv]
    decide
  have hr : ∃ outcome g', Change.run (some ⟨⟨"crow"⟩, 1⟩) (.deleteNode ⟨"worm"⟩) fedCrow.graph = .ok outcome g' :=
    ⟨_, _, rfl⟩
  obtain ⟨outcome, g', hr⟩ := hr
  have hover : Change.Overreaches fedCrow.graph ⟨"crow"⟩ (.deleteNode ⟨"worm"⟩) := by
    refine ⟨by decide, ⟨"crow::eats::worm"⟩, Relation.new ⟨"crow"⟩ "eats" ⟨"worm"⟩ {}, ?_⟩
    exact ⟨rfl, rfl, rfl⟩
  have hstated := run_of_staleGuard hn hstale (c := .deleteNode ⟨"worm"⟩) nofun
  obtain ⟨-, -, hok⟩ := hstated.2 reachable_fedCrow
  exact ⟨n, outcome, g', hn, hstale, hr, (hok outcome g' hr).1.mpr hover⟩

end Session

end Morphology
