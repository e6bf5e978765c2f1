import Morphology.Proofs.Application.Writing
import Morphology.Proofs.Edit.Walk
import Morphology.Proofs.Graph.Holding

/-! Every edit of a sound graph is about one node: what other nodes hold stays as it is, and the version of that one
goes up with the change. Deleting a node is the exception, since the edges that lead to it belong to others; their
versions go up as well. -/

namespace Morphology

namespace Graph

variable {g g' : Graph} {k : MorphId} {e : EdgeRef} {p : NodeId}

theorem pruned_of_unlink {left : Nat} (h : g.unlink k e = .ok (left, g')) :
    g'.nodes = g.nodes ∧ Pruned (fun l e' => decide (l = k ∧ e' = e)) (fun _ => false) g g' := by
  obtain ⟨m, hm, rfl⟩ := unlink_eq_ok h
  exact ⟨rfl, pruned_unlink hm⟩

theorem removeEdge_nodes {losers : List MorphId} (h : g.removeEdge e = .ok (losers, g')) : g'.nodes = g.nodes := by
  obtain ⟨-, rfl⟩ := removeEdge_eq_ok h
  exact eraseEdgeRecord_nodes g e

/-- Losing references and edges leaves the nodes, and so the versions, as they are. -/
theorem outlastsLoss_nodes (g₀ : Graph) : OutlastsLoss fun g => g.nodes = g₀.nodes where
  unlink h hs := (pruned_of_unlink hs).1.trans h
  removeEdge h hs := (removeEdge_nodes hs).trans h

/-- What a morph loses, and the edges that go with it, were of its node. -/
theorem Coherent.confined_pruned (h : g.Coherent) {m : Morph} (hm : g.morphs.get? k = some m)
    {drops : MorphId → EdgeRef → Bool} {gone : EdgeRef → Bool} (hp : Pruned drops gone g g')
    (hnodes : g'.nodes = g.nodes) (hd : ∀ l e, drops l e = true → l = k)
    (hg : ∀ e, gone e = true → g.Refers k e) : Confined m.owner g g' := by
  refine hp.confined hnodes (fun l e m' hm' _ hdrop => ?_) fun e o hgone ho => ?_
  · rw [hd l e hdrop, hm] at hm'
    cases hm'
    rfl
  · obtain ⟨m', hm', he⟩ := hg e hgone
    rw [hm] at hm'
    cases hm'
    rw [h.owned hm he] at ho
    cases ho
    rfl

theorem Pruned.owns {drops : MorphId → EdgeRef → Bool} {gone : EdgeRef → Bool} (hp : Pruned drops gone g g')
    (hk : g.Owns p k) : g'.Owns p k := by
  obtain ⟨m, hm, ho⟩ := hk
  exact ⟨_, hp.morph hm, ho⟩

end Graph

namespace Edit

open Morphology.Graph

variable {g₀ g : Graph} {k : MorphId} {p : NodeId}

theorem ensures_touchNode (h : Confined p g₀ g) : Ensures (touchNode p) g fun _ g' => Stamps p g₀ g' :=
  .modify h.touched

theorem ensures_touchOwner (h : Confined p g₀ g) (hk : g.Owns p k) :
    Ensures (touchOwner k) g fun _ g' => Stamps p g₀ g' := by
  obtain ⟨m, hm, rfl⟩ := hk
  refine .modify ?_
  rw [hm]
  exact h.touched

theorem ensures_touchOwners {ks : List MorphId} (hne : ks ≠ []) (h : Confined p g₀ g) (hks : ∀ k ∈ ks, g.Owns p k) :
    Ensures (touchOwners ks) g fun _ g' => Stamps p g₀ g' := by
  induction ks generalizing g with
  | nil => exact absurd rfl hne
  | cons k ks ih =>
    obtain ⟨m, hm, rfl⟩ := hks k List.mem_cons_self
    refine Ensures.bind (P := fun _ g₁ => g₁ = g.modifyNode m.owner Node.bump) (.modify (by rw [hm])) fun _ g₁ hg₁ => ?_
    subst hg₁
    cases ks with
    | nil => exact .pure h.touched
    | cons l ks =>
      refine ih nofun h.touched.toConfined fun k' hk' => ?_
      exact hks k' (List.mem_cons_of_mem _ hk')

theorem ensures_linkAll (es : List EdgeRef) (h : Confined p g₀ g) (hk : g.Owns p k) :
    Ensures (linkAll k es) g fun _ g' => Confined p g₀ g' := by
  induction es generalizing g with
  | nil => exact .pure h
  | cons e es ih =>
    refine Ensures.bind (P := fun _ g₁ => g₁ = g.linking k e) (.change fun _ g₁ hs => ?_) fun _ g₁ hg₁ => ?_
    · obtain ⟨-, -, -, hg₁⟩ := link_eq_ok hs
      exact hg₁
    · subst hg₁
      exact ih (h.trans (confined_linking hk)) ((grown_linking g k e).owns hk)

theorem stamps_switchActive (o : NodeId) (l : MorphId) : Ensures (switchActive o l) g fun _ g' => Stamps o g g' := by
  refine .demand_bind fun n _ => ?_
  split
  · have hversions : Confined o g (g.modifyNode o fun n => { n with active := some l }) :=
      confined_modifyNode fun _ => le_rfl
    exact .modify (hversions.stamps (holding_modifyNode fun _ => rfl))
  · refine .get_bind ?_
    split
    · exact .refuse _
    · exact .refuse _

theorem stamps_updateNode (o : NodeId) (update : NodeUpdate) :
    Ensures (updateNode o update) g fun _ g' => Stamps o g g' := by
  refine .demand_bind fun n hn => .modify ?_
  exact (Confined.refl o g).stamps_modifyNode fun n => Nat.lt_succ_self n.version

theorem stamps_copyRef (e : EdgeRef) (source target : MorphId) :
    Ensures (copyRef e source target) g fun _ g' => ∃ m, g.morphs.get? target = some m ∧ Stamps m.owner g g' := by
  refine .reads_bind (reads_requireReference source e) fun _ _ => ?_
  refine .demand_bind fun m hm => ?_
  rw [requireMorph_eq_ok] at hm
  refine .reads_bind (reads_requireSameOwner m e) fun _ _ => ?_
  have hlinked : Ensures (change (·.link target e)) g fun added g₁ =>
      added = !m.contains e ∧ g₁ = g.linking target e := by
    refine .change fun added g₁ hs => ?_
    obtain ⟨m', hm', hadded, hg₁⟩ := link_eq_ok hs
    rw [hm] at hm'
    cases hm'
    exact ⟨hadded, hg₁⟩
  refine hlinked.bind ?_
  rintro added g₁ ⟨rfl, rfl⟩
  have hk : g.Owns m.owner target := ⟨m, hm, rfl⟩
  cases hin : m.contains e with
  | true =>
    rw [linking_of_refers ⟨m, hm, hin⟩]
    exact .pure ⟨m, hm, .refl _ g⟩
  | false =>
    refine (ensures_touchOwner (confined_linking hk) ((grown_linking g target e).owns hk)).bind fun _ _ hw => ?_
    exact .pure ⟨m, hm, hw⟩

variable (h : g.Sound)

include h

theorem stamps_makeMorph {o : NodeId} {n : Node} (hn : g.nodes.get? o = some n) (name : Option String)
    (refs : List EdgeRef) : Ensures (makeMorph o name refs) g fun _ g' => Stamps o g g' := by
  obtain ⟨rfl, -⟩ := h.node hn
  refine Ensures.bind (P := fun k g₁ => Confined n.id g g₁ ∧ g₁.Owns n.id k) (.change fun k g₁ hs => ?_) ?_
  · rw [createMorph_eq hn rfl] at hs
    cases hs
    refine ⟨confined_withMorph (n := n.withMorph) (h.framed.fresh_morph hn) fun n₀ hn₀ => ?_, _,
      morphs_withMorph_self, rfl⟩
    replace hn₀ : g.nodes.get? n.id = some n₀ := hn₀
    rw [hn] at hn₀
    cases hn₀
    exact le_rfl
  · rintro k g₁ ⟨hc, hk⟩
    refine (ensures_linkAll refs hc hk).bind fun _ g₂ hc₂ => ?_
    exact (ensures_touchNode hc₂).bind fun _ _ hw => .pure hw

theorem stamps_addMorph (o : NodeId) (name : Option String) (seed : Option MorphId) :
    Ensures (addMorph o name seed) g fun _ g' => Stamps o g g' := by
  obtain hrefused | ⟨n, hn, -, hrun⟩ := addMorph_cases h.framed o name
  · intro k g' hadded
    obtain ⟨e, he⟩ := hrefused seed
    rw [he] at hadded
    cases hadded
  · rw [Ensures, hrun]
    exact Ensures.reads_bind (reads_seedRefs h o seed) fun refs _ => stamps_makeMorph h hn _ refs

theorem stamps_deleteMorph (k : MorphId) :
    Ensures (deleteMorph k) g fun _ g' => ∃ m, g.morphs.get? k = some m ∧ Stamps m.owner g g' := by
  refine .demand_bind fun m hm => .demand_bind fun n hn => ?_
  rw [requireMorph_eq_ok] at hm
  split
  · exact .throw_bind _
  · refine .reads_bind (reads_requireFreeMorph k) fun _ _ => ?_
    have hrefers : ∀ e ∈ m.refs, g.Refers k e := fun e he => ⟨m, hm, Morph.mem_refs.mp he⟩
    have hpurged := (succeeds_purgeAll h (h.morph hm).2.nodup_refs hrefers).ensures
    have hnodes := ((outlastsLoss_nodes g).leaves_purgeAll rfl k m.refs).ensures
    refine (hpurged.and hnodes).bind ?_
    rintro gone g₁ ⟨⟨-, -, hgone, hp⟩, hnodes⟩
    have hc : Confined m.owner g g₁ := by
      refine h.toCoherent.confined_pruned hm hp hnodes (fun l e hd => ?_) fun e he => ?_
      · simp only [decide_eq_true_eq] at hd
        exact hd.1
      · exact hrefers e ((hgone e).mp (by simpa using he)).1
    refine Ensures.bind (P := fun _ g₂ => Confined m.owner g g₂) (.change fun _ g₂ hs => ?_) fun _ g₂ hc₂ => ?_
    · rw [removeMorph_eq (hp.morph hm)] at hs
      cases hs
      have hrest := confined_withoutMorph (hp.morph hm)
      exact hc.trans hrest
    · exact (ensures_touchNode hc₂).bind fun _ _ hw => .pure ⟨m, hm, hw⟩

theorem stamps_moveRef (e : EdgeRef) (source target : MorphId) :
    Ensures (moveRef e source target) g fun _ g' => ∃ m, g.morphs.get? target = some m ∧ Stamps m.owner g g' := by
  refine .reads_bind (reads_requireReference source e) fun _ ⟨m₀, hm₀, he⟩ => ?_
  refine .demand_bind fun m hm => ?_
  rw [requireMorph_eq_ok] at hm
  refine .reads_bind (reads_requireSameOwner m e) fun _ ho => ?_
  split
  · exact .pure ⟨m, hm, .refl _ g⟩
  · -- Both morphs are of the node that the edge belongs to.
    have howner : m₀.owner = m.owner := Option.some.inj ((h.owned hm₀ he).symm.trans ho)
    have hsource : g.Owns m.owner source := ⟨m₀, hm₀, howner⟩
    have htarget : g.Owns m.owner target := ⟨m, hm, rfl⟩
    have hgrown := grown_linking g target e
    refine Ensures.bind (P := fun _ g₁ => g₁ = g.linking target e) (.change fun _ _ hs => ?_) fun _ g₁ hg₁ => ?_
    · obtain ⟨-, -, -, hg₁⟩ := link_eq_ok hs
      exact hg₁
    subst hg₁
    have hunlinked : Ensures (change (·.unlink source e)) (g.linking target e) fun _ g₂ =>
        Confined m.owner (g.linking target e) g₂ ∧ g₂.Owns m.owner target := by
      refine .change fun _ g₂ hs => ?_
      obtain ⟨hnodes, hp⟩ := pruned_of_unlink hs
      obtain ⟨m₁, hm₁, hmo⟩ := hgrown.owns hsource
      refine ⟨hp.confined hnodes (fun l e' m' hm' _ hd => ?_) nofun, hp.owns (hgrown.owns htarget)⟩
      simp only [decide_eq_true_eq] at hd
      rw [hd.1, hm₁] at hm'
      cases hm'
      exact hmo
    refine hunlinked.bind fun _ g₂ ⟨hc, hk⟩ => ?_
    exact (ensures_touchOwner ((confined_linking htarget).trans hc) hk).mono fun _ _ hw => ⟨m, hm, hw⟩

theorem stamps_unlistRef (e : EdgeRef) (k : MorphId) :
    Ensures (unlistRef e k) g fun _ g' => ∃ m, g.morphs.get? k = some m ∧ Stamps m.owner g g' := by
  refine .reads_bind (reads_requireReference k e) fun _ hr => ?_
  obtain ⟨m, hm, he⟩ := hr
  have hr : g.Refers k e := ⟨m, hm, he⟩
  have hnodes := ((outlastsLoss_nodes g).leaves_purge rfl k e).ensures
  refine ((succeeds_purge h hr).ensures.and hnodes).bind ?_
  rintro gone g₁ ⟨⟨-, -, hp⟩, hnodes⟩
  have hc : Confined m.owner g g₁ := by
    refine h.toCoherent.confined_pruned hm hp hnodes (fun l e' hd => ?_) fun e' he' => ?_
    · simp only [decide_eq_true_eq] at hd
      exact hd.1
    · simp only [Bool.and_eq_true, decide_eq_true_eq] at he'
      exact he'.1 ▸ hr
  exact (ensures_touchOwner hc (hp.owns ⟨m, hm, rfl⟩)).bind fun _ _ hw => .pure ⟨m, hm, hw⟩

/-- An edge that goes takes references of its own node only, and there is one. -/
theorem ensures_removeEdge {β : Type} {f : Edit β} {e : EdgeRef} (ho : g.edgeOwner e = some p) {Q : β → Graph → Prop}
    (hf : ∀ g', g'.Sound → Stamps p g g' → Ensures f g' Q) :
    Ensures (do
      let losers ← change (·.removeEdge e)
      touchOwners losers
      f) g Q := by
  have he : g.hasEdge e = true := hasEdge_of_owner ho
  have hlosers : Ensures (change (·.removeEdge e)) g fun losers g₁ => losers = g.referrers.items e ∧
      g₁.nodes = g.nodes := .change fun _ _ hs => ⟨(removeEdge_eq_ok hs).1, removeEdge_nodes hs⟩
  refine ((succeeds_removeEdge h he).ensures.and hlosers).bind ?_
  rintro losers g₁ ⟨⟨h₁, hp⟩, rfl, hnodes⟩
  have howns {k : MorphId} (hk : g.Refers k e) : g.Owns p k := by
    obtain ⟨m, hm, hme⟩ := hk
    exact ⟨m, hm, Option.some.inj ((h.owned hm hme).symm.trans ho)⟩
  have hc : Confined p g g₁ := by
    refine hp.confined hnodes (fun k e' m hm hme hd => ?_) fun e' o hgone ho' => ?_
    · simp only [decide_eq_true_eq] at hd
      subst hd
      exact Option.some.inj ((h.owned hm hme).symm.trans ho)
    · simp only [decide_eq_true_eq] at hgone
      rw [hgone, ho] at ho'
      exact (Option.some.inj ho').symm
  have hne : g.referrers.items e ≠ [] := by
    obtain ⟨k, hk⟩ := h.covered e he
    exact List.ne_nil_of_mem (h.referrer.mpr hk)
  have htouched := ensures_touchOwners hne hc fun k hk => hp.owns (howns (h.referrer.mp hk))
  refine ((succeeds_touchOwners h₁ _).ensures.and htouched).bind fun _ g₂ ⟨⟨h₂, _⟩, hw⟩ => ?_
  exact hf g₂ h₂ hw

theorem stamps_deleteEdge (e : EdgeRef) :
    Ensures (deleteEdge e) g fun _ g' => ∃ p, g.edgeOwner e = some p ∧ Stamps p g g' := by
  refine .demand_bind fun _ he => ?_
  obtain ⟨p, ho⟩ := hasEdge_iff.mp (requireEdge_eq_ok.mp he)
  exact ensures_removeEdge h ho fun g' _ hw => .pure ⟨p, ho, hw⟩

theorem stamps_updateRelation (id : RelationId) (modifiers : RelationModifiers) :
    Ensures (updateRelation id modifiers) g fun _ g' => ∃ p, g.edgeOwner (.relation id) = some p ∧ Stamps p g g' := by
  refine .get_bind ?_
  split
  · exact .refuse _
  · rename_i r hr
    obtain ⟨rfl, -, -, -⟩ := h.relation hr
    have howner : g.edgeOwner (.relation r.id) = some r.source := by rw [edgeOwner, hr, Option.map_some]
    refine .set_bind ((ensures_touchNode ?_).mono fun _ _ hw => ⟨r.source, howner, hw⟩)
    refine confined_record (w := .relation { r with modifiers := modifiers }) rfl rfl
      (record?_insertRelation g r.id { r with modifiers := modifiers }) fun o ho => ?_
    exact Option.some.inj (ho.symm.trans howner)

theorem stamps_updateAttribute (id : AttributeId) (value : String) (typed : Option Value)
    (modifiers : AttributeModifiers) :
    Ensures (updateAttribute id value typed modifiers) g fun _ g' =>
      ∃ p, g.edgeOwner (.attr id) = some p ∧ Stamps p g g' := by
  refine .get_bind ?_
  split
  · exact .refuse _
  · rename_i a ha
    obtain ⟨rfl, -, -⟩ := h.attr ha
    have howner : g.edgeOwner (.attr a.id) = some a.owner := by rw [edgeOwner, ha, Option.map_some]
    refine .set_bind ((ensures_touchNode ?_).mono fun _ _ hw => ⟨a.owner, howner, hw⟩)
    refine confined_record (w := .attr { a with value := value, typed := typed, modifiers := modifiers }) rfl rfl
      (record?_insertAttribute g a.id { a with value := value, typed := typed, modifiers := modifiers }) fun o ho => ?_
    exact Option.some.inj (ho.symm.trans howner)

theorem stamps_upsertRelation (k : MorphId) {r : Relation} (hc : r.IsComposed) :
    Ensures (upsertRelation k r) g fun _ g' => Stamps r.source g g' := by
  refine (ensures_upsertRelation g k r).mono fun _ _ ⟨hk, ⟨hs, ht⟩, _, _, hg'⟩ => ?_
  refine hg' ▸ stamps_upserted (w := .relation r) hk fun o howner => ?_
  obtain ⟨r₀, hr₀, hr₀o⟩ := Option.map_eq_some_iff.mp howner
  exact hr₀o.symm.trans (h.relation_eq hr₀ rfl hc hs (ht r.target rfl)).1

theorem stamps_upsertAttribute (k : MorphId) {a : Attribute} (hc : a.IsComposed) :
    Ensures (upsertAttribute k a) g fun _ g' => Stamps a.owner g g' := by
  refine (ensures_upsertAttribute g k a).mono fun _ _ ⟨hk, ⟨hs, _⟩, _, _, hg'⟩ => ?_
  refine hg' ▸ stamps_upserted (w := .attr a) hk fun o howner => ?_
  obtain ⟨a₀, ha₀, ha₀o⟩ := Option.map_eq_some_iff.mp howner
  exact ha₀o.symm.trans (h.attr_eq ha₀ rfl hc hs).1

theorem witnessed_removeEdges (es : List EdgeRef) :
    Ensures (removeEdges es) g fun _ g' => ∀ o, Witnessed o g g' := by
  induction es generalizing g with
  | nil => exact .pure fun o => .refl o g
  | cons e es ih =>
    refine .get_bind ?_
    split
    · rename_i he
      obtain ⟨p, ho⟩ := hasEdge_iff.mp he
      refine ensures_removeEdge h ho fun g₁ h₁ hw => ?_
      exact (ih h₁).bind fun _ g₂ hw₂ => .pure fun o => (hw.everywhere o).trans (hw₂ o)
    · exact ih h

theorem witnessed_deleteEdges (es : List EdgeRef) :
    Ensures (deleteEdges es) g fun _ g' => ∀ o, Witnessed o g g' := by
  induction es generalizing g with
  | nil => exact .pure fun o => .refl o g
  | cons e es ih =>
    have hdeleted := (allOrNothing_deleteEdge h e).ensures.and (stamps_deleteEdge h e)
    refine hdeleted.bind fun _ g₁ ⟨⟨h₁, _⟩, p, _, hw⟩ => ?_
    exact (ih h₁).mono fun _ g₂ hw₂ o => (hw.everywhere o).trans (hw₂ o)

/-- The sources of the relations that lead to a node see it go. -/
theorem witnessed_deleteNode (p : NodeId) :
    Ensures (deleteNode p) g fun _ g' => g'.version? p = none ∧ ∀ o, o ≠ p → Witnessed o g g' := by
  refine .demand_bind fun n hn => .reads_bind (reads_requireFreeNode p) fun _ _ => ?_
  rw [requireNode_eq_ok] at hn
  have hnodes := ((outlastsLoss_nodes g).leaves_purgeMorphs rfl n.morphs).ensures
  refine ((succeeds_purgeMorphs h n.morphs).ensures.and hnodes).bind ?_
  rintro purged g₁ ⟨⟨h₁, -, hpurged, hp₁⟩, hnodes⟩
  have howner {k : MorphId} {m : Morph} (hk : k ∈ n.morphs) (hm : g.morphs.get? k = some m) : m.owner = p :=
    (h.framed.mem_morphs_iff hn hm).mp hk
  have hc : Confined p g g₁ := by
    refine hp₁.confined hnodes (fun k e m hm _ hd => howner (by simpa using hd) hm) fun e o hgone ho => ?_
    obtain ⟨he, hall⟩ := (hpurged e).mp (by simpa using hgone)
    obtain ⟨k, m, hm, hme⟩ := h.covered e he
    rw [h.owned hm hme] at ho
    exact (Option.some.inj ho).symm.trans (howner (hall k ⟨m, hm, hme⟩) hm)
  refine .get_bind ?_
  have hremoved := (succeeds_removeEdges h₁ (edgesAt g₁ p)).ensures.and (witnessed_removeEdges h₁ (edgesAt g₁ p))
  refine hremoved.bind ?_
  rintro removed g₂ ⟨⟨h₂, -, -, hp₂⟩, hw₂⟩
  obtain ⟨n₂, hn₂, -⟩ := (hp₁.trans hp₂).node hn
  refine Ensures.bind (P := fun _ g₃ => g₃ = g₂.withoutNode p n₂) (.change fun _ g₃ hs => ?_) fun _ g₃ hg₃ => .pure ?_
  · rw [removeNode_eq hn₂] at hs
    cases hs
    rfl
  · subst hg₃
    refine ⟨by rw [version?, nodes_withoutNode, if_pos rfl]; rfl, fun o ho => ?_⟩
    exact ((hc.witnessed ho).trans (hw₂ o)).trans (h₂.framed.witnessed_withoutNode hn₂ ho)

end Edit

/-- The node that a change is written to. -/
def Change.node? (g : Graph) : Change → Option NodeId
  | .addMorph node _ _ => some node
  | .switchActive node _ => some node
  | .deleteMorph morph => (g.morphs.get? morph).map (·.owner)
  | .copyRef _ _ target => (g.morphs.get? target).map (·.owner)
  | .moveRef _ _ target => (g.morphs.get? target).map (·.owner)
  | .unlistRef _ morph => (g.morphs.get? morph).map (·.owner)
  | .deleteEdge edge => g.edgeOwner edge
  | .upsertRelation _ relation => some relation.source
  | .upsertAttribute _ a => some a.owner
  | .updateRelation id _ => g.edgeOwner (.relation id)
  | .updateAttribute id _ _ _ => g.edgeOwner (.attr id)
  | .updateNode node _ => some node
  | .deleteNode node => some node

namespace Change

open Morphology.Graph Edit

variable {g : Graph} (h : g.Sound)

include h

theorem stamps_perform {c : Change} (hc : c.Plain) (hd : ∀ p, c ≠ .deleteNode p) :
    Ensures c.perform g fun _ g' => ∃ p, c.node? g = some p ∧ Stamps p g g' := by
  have hmorph {k : MorphId} {g' : Graph} (hw : ∃ m, g.morphs.get? k = some m ∧ Stamps m.owner g g') :
      ∃ p, (g.morphs.get? k).map (·.owner) = some p ∧ Stamps p g g' := by
    obtain ⟨m, hm, hw⟩ := hw
    exact ⟨m.owner, by rw [hm, Option.map_some], hw⟩
  cases c with
  | addMorph node name seed => exact (stamps_addMorph h node name seed).map fun _ _ hw => ⟨node, rfl, hw⟩
  | switchActive node morph => exact (stamps_switchActive node morph).bind fun _ _ hw => .pure ⟨node, rfl, hw⟩
  | deleteMorph morph => exact (stamps_deleteMorph h morph).map fun _ _ => hmorph
  | copyRef edge source target => exact (stamps_copyRef edge source target).map fun _ _ => hmorph
  | moveRef edge source target =>
    exact (stamps_moveRef h edge source target).bind fun _ _ hw => .pure (hmorph hw)
  | unlistRef edge morph => exact (stamps_unlistRef h edge morph).map fun _ _ => hmorph
  | deleteEdge edge => exact (stamps_deleteEdge h edge).map fun _ _ => id
  | upsertRelation morph relation =>
    exact (stamps_upsertRelation h morph hc).map fun _ _ hw => ⟨_, rfl, hw⟩
  | upsertAttribute morph a => exact (stamps_upsertAttribute h morph hc).map fun _ _ hw => ⟨_, rfl, hw⟩
  | updateRelation id modifiers => exact (stamps_updateRelation h id modifiers).bind fun _ _ hw => .pure hw
  | updateAttribute id value typed modifiers =>
    exact (stamps_updateAttribute h id value typed modifiers).bind fun _ _ hw => .pure hw
  | updateNode node update => exact (stamps_updateNode node update).bind fun _ _ hw => .pure ⟨node, rfl, hw⟩
  | deleteNode node => exact absurd rfl (hd node)

/-- A node that is there after a change has a version that tells whether it was changed. -/
theorem witnessed_run (guard : Option Guard) {c : Change} (hc : c.Plain) :
    Ensures (c.run guard) g fun _ g' => ∀ o v', g'.version? o = some v' → Witnessed o g g' := by
  refine .reads_bind (Guard.reads_check guard c) fun _ _ => ?_
  by_cases hd : ∃ p, c = .deleteNode p
  · obtain ⟨p, rfl⟩ := hd
    refine (witnessed_deleteNode h p).map fun _ g' ⟨hgone, hw⟩ o v' hv' => hw o ?_
    rintro rfl
    rw [hgone] at hv'
    cases hv'
  · have hd' : ∀ p, c ≠ .deleteNode p := fun p hp => hd ⟨p, hp⟩
    exact (stamps_perform h hc hd').mono fun _ g' ⟨p, _, hw⟩ o _ _ => hw.everywhere o

end Change

end Morphology
