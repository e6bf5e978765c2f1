import Morphology.Proofs.Graph.Growth

/-! Elementary changes that take from a coherent graph. `Graph.Pruned` says exactly what went: the references
that `drops` picks and the edges that `gone` picks, and nothing else but versions of nodes. -/

namespace Morphology

def Node.unversioned (n : Node) : Node := { n with version := 0 }

theorem Node.Sound.withoutMorph {n : Node} (h : n.Sound) {k : MorphId} (hk : k ≠ MorphId.ofNode n.id 0) :
    (n.withoutMorph k).Sound where
  plain := h.plain
  nodup := h.nodup.filter _
  basic := (h.toNumbered.withoutMorph hk).basic
  numbered := (h.toNumbered.withoutMorph hk).numbered
  active l hl := by
    have hne : n.active ≠ some k := by
      intro hk
      simp [Node.withoutMorph, hk] at hl
    have hactive : n.active = some l := by simpa [Node.withoutMorph, hne] using hl
    refine List.mem_filter.mpr ⟨h.active l hactive, ?_⟩
    have : l ≠ k := by
      rintro rfl
      exact hne hactive
    simpa using this

namespace Graph

section Inversion

variable {g g' : Graph} {k : MorphId} {e : EdgeRef}

theorem unlink_eq_ok {left : Nat} (h : g.unlink k e = .ok (left, g')) : ∃ m, g.morphs.get? k = some m ∧
    g' = { g with morphs := g.morphs.insert k (m.remove e), referrers := g.referrers.remove e k } := by
  simp only [unlink, requireMorph] at h
  split at h
  · rename_i m hm
    simp only [bind, Except.bind] at h
    split at h
    · cases h
      exact ⟨m, hm, rfl⟩
    · cases h
  · cases h

theorem removeEdge_eq_ok {losers : List MorphId} (h : g.removeEdge e = .ok (losers, g')) :
    losers = g.referrers.items e ∧ g' = { g.eraseEdgeRecord e with
      referrers := (g.eraseEdgeRecord e).referrers.removeKey e
      morphs := withoutEdge e (g.eraseEdgeRecord e).morphs losers } := by
  simp only [removeEdge, requireEdge] at h
  split at h
  · cases h
    exact ⟨rfl, rfl⟩
  · cases h

theorem eraseEdgeRecord_nodes (g : Graph) (e : EdgeRef) : (g.eraseEdgeRecord e).nodes = g.nodes := by
  unfold eraseEdgeRecord
  split <;> split <;> rfl

theorem eraseEdgeRecord_morphs (g : Graph) (e : EdgeRef) : (g.eraseEdgeRecord e).morphs = g.morphs := by
  unfold eraseEdgeRecord
  split <;> split <;> rfl

theorem eraseEdgeRecord_names (g : Graph) (e : EdgeRef) : (g.eraseEdgeRecord e).names = g.names := by
  unfold eraseEdgeRecord
  split <;> split <;> rfl

theorem transitions_eraseEdgeRecord (g : Graph) (e : EdgeRef) : (g.eraseEdgeRecord e).transitions = g.transitions := by
  unfold eraseEdgeRecord
  split <;> split <;> rfl

end Inversion

/-- No transition names the morph. -/
def FreeMorph (g : Graph) (k : MorphId) : Prop :=
  ∀ id t, g.transitions.get? id = some t → ∀ p ∈ t.pairs, p.morph ≠ k

/-- No transition names the node. -/
def FreeNode (g : Graph) (o : NodeId) : Prop :=
  ∀ id t, g.transitions.get? id = some t → ∀ p ∈ t.pairs, p.node ≠ o

theorem FreeMorph.of_transitions {g g' : Graph} {k : MorphId} (h : g.FreeMorph k)
    (ht : g'.transitions = g.transitions) : g'.FreeMorph k := by
  rw [FreeMorph, ht]
  exact h

theorem FreeNode.of_transitions {g g' : Graph} {o : NodeId} (h : g.FreeNode o)
    (ht : g'.transitions = g.transitions) : g'.FreeNode o := by
  rw [FreeNode, ht]
  exact h

structure Pruned (drops : MorphId → EdgeRef → Bool) (gone : EdgeRef → Bool) (g g' : Graph) : Prop where
  nodes : ∀ k, (g'.nodes.get? k).map Node.unversioned = (g.nodes.get? k).map Node.unversioned
  morphs : ∀ k, g'.morphs.get? k = (g.morphs.get? k).map (·.keep fun e => !drops k e)
  relations : ∀ k, g'.relations.get? k = if gone (.relation k) then none else g.relations.get? k
  attributes : ∀ k, g'.attributes.get? k = if gone (.attr k) then none else g.attributes.get? k
  transitions : g'.transitions = g.transitions
  names : g'.names = g.names

/-- Nothing but versions of nodes is different. -/
abbrev Touched (g g' : Graph) : Prop := Pruned (fun _ _ => false) (fun _ => false) g g'

namespace Pruned

variable {drops drops' : MorphId → EdgeRef → Bool} {gone gone' : EdgeRef → Bool} {g g' g'' : Graph}

theorem refl (g : Graph) : Pruned (fun _ _ => false) (fun _ => false) g g where
  nodes _ := rfl
  morphs k := by simp [Morph.keep_true]
  relations _ := rfl
  attributes _ := rfl
  transitions := rfl
  names := rfl

theorem trans (h : Pruned drops gone g g') (h' : Pruned drops' gone' g' g'') :
    Pruned (fun k e => drops k e || drops' k e) (fun e => gone e || gone' e) g g'' where
  nodes k := (h'.nodes k).trans (h.nodes k)
  morphs k := by
    rw [h'.morphs, h.morphs, Option.map_map]
    refine congrArg (Option.map · _) (funext fun m => ?_)
    simp [Morph.keep_keep]
  relations k := by
    rw [h'.relations, h.relations]
    cases gone (.relation k) <;> simp
  attributes k := by
    rw [h'.attributes, h.attributes]
    cases gone (.attr k) <;> simp
  transitions := h'.transitions.trans h.transitions
  names := h'.names.trans h.names

/-- Only references that are there count, and only edges that are there. -/
theorem congr (h : Pruned drops gone g g') (hd : ∀ k e, g.Refers k e → drops k e = drops' k e)
    (hg : ∀ e, g.hasEdge e = true → gone e = gone' e) : Pruned drops' gone' g g' where
  nodes := h.nodes
  morphs k := by
    rw [h.morphs]
    cases hm : g.morphs.get? k with
    | none => rfl
    | some m => exact congrArg some (Morph.keep_congr fun e he => by rw [hd k e ⟨m, hm, he⟩])
  relations k := by
    rw [h.relations]
    cases hr : g.relations.get? k with
    | none => simp
    | some r => rw [hg (.relation k) (Table.contains_iff.mpr ⟨r, hr⟩)]
  attributes k := by
    rw [h.attributes]
    cases ha : g.attributes.get? k with
    | none => simp
    | some a => rw [hg (.attr k) (Table.contains_iff.mpr ⟨a, ha⟩)]
  transitions := h.transitions
  names := h.names

theorem touched (h : Pruned drops gone g g') (ht : g'.Touched g'') : Pruned drops gone g g'' :=
  (h.trans ht).congr (fun _ _ _ => by simp) (fun _ _ => by simp)

theorem refers_iff (h : Pruned drops gone g g') {k : MorphId} {e : EdgeRef} :
    g'.Refers k e ↔ g.Refers k e ∧ drops k e = false := by
  unfold Refers
  rw [h.morphs]
  constructor
  · rintro ⟨m, hm, he⟩
    obtain ⟨m₀, hm₀, rfl⟩ := Option.map_eq_some_iff.mp hm
    obtain ⟨he, hd⟩ := Morph.contains_keep.mp he
    exact ⟨⟨m₀, hm₀, he⟩, by simpa using hd⟩
  · rintro ⟨⟨m, hm, he⟩, hd⟩
    exact ⟨_, Option.map_eq_some_iff.mpr ⟨m, hm, rfl⟩, Morph.contains_keep.mpr ⟨he, by simpa using hd⟩⟩

theorem edgeOwner_eq (h : Pruned drops gone g g') (e : EdgeRef) :
    g'.edgeOwner e = if gone e then none else g.edgeOwner e := by
  cases e with
  | relation id =>
    simp only [edgeOwner, h.relations]
    split <;> rfl
  | attr id =>
    simp only [edgeOwner, h.attributes]
    split <;> rfl

theorem hasEdge_iff (h : Pruned drops gone g g') {e : EdgeRef} :
    g'.hasEdge e = true ↔ g.hasEdge e = true ∧ gone e = false := by
  rw [Graph.hasEdge_iff, Graph.hasEdge_iff, h.edgeOwner_eq]
  cases gone e <;> simp

theorem node (h : Pruned drops gone g g') {k : NodeId} {n : Node} (hn : g.nodes.get? k = some n) :
    ∃ n', g'.nodes.get? k = some n' ∧ n'.unversioned = n.unversioned := by
  have hk := h.nodes k
  rw [hn] at hk
  exact Option.map_eq_some_iff.mp hk

theorem morph (h : Pruned drops gone g g') {k : MorphId} {m : Morph} (hm : g.morphs.get? k = some m) :
    g'.morphs.get? k = some (m.keep fun e => !drops k e) := by
  rw [h.morphs, hm, Option.map_some]

end Pruned

variable {g : Graph}

theorem pruned_unlink {k : MorphId} {m : Morph} {e : EdgeRef} {x : Index EdgeRef MorphId}
    (hm : g.morphs.get? k = some m) :
    Pruned (fun l e' => decide (l = k ∧ e' = e)) (fun _ => false) g
      { g with morphs := g.morphs.insert k (m.remove e), referrers := x } where
  nodes _ := rfl
  morphs l := by
    rw [Table.lookup_insert]
    by_cases hl : l = k
    · subst hl
      simp [hm, Morph.remove_eq_keep]
    · simp [hl, Morph.keep_true]
  relations _ := rfl
  attributes _ := rfl
  transitions := rfl
  names := rfl

theorem lookup_withoutEdge {e : EdgeRef} {ms : Table MorphId Morph} {ids : List MorphId} {k : MorphId} :
    (withoutEdge e ms ids).get? k = if k ∈ ids then (ms.get? k).map (·.remove e) else ms.get? k := by
  induction ids generalizing ms with
  | nil => simp [withoutEdge]
  | cons id ids ih =>
    have hstep : withoutEdge e ms (id :: ids) = withoutEdge e (ms.modify id fun m => m.remove e) ids := rfl
    have hagain (m : Morph) : (m.remove e).remove e = m.remove e := by
      refine Morph.remove_eq_self (Bool.eq_false_iff.mpr fun he => ?_)
      exact (Morph.contains_remove.mp he).2 rfl
    rw [hstep, ih, Table.lookup_modify]
    by_cases hk : k = id
    · subst hk
      simp [Option.map_map, Function.comp_def, hagain]
    · simp [hk]

namespace Coherent

variable (h : g.Coherent)

include h

theorem unlink {k : MorphId} {m : Morph} {e : EdgeRef} (hm : g.morphs.get? k = some m) :
    Coherent { g with morphs := g.morphs.insert k (m.remove e), referrers := g.referrers.remove e k } := by
  refine h.replaceMorph hm ?_ ?_ (fun e' he' => h.owned hm (Morph.contains_remove.mp he').1) fun e' l => ?_
  · rw [Morph.remove_eq_keep, Morph.bare_keep]
  · rw [Morph.remove_eq_keep]
    exact (h.morph hm).2.keep _
  · rw [Index.mem_items_remove, h.referrer]
    by_cases hl : l = k
    · subst hl
      simp [Refers, hm, Morph.contains_remove, and_comm]
    · simp [hl]

/-- The morphs that the index gives for an edge are all that refer to it. -/
theorem lookup_withoutReferrers {e : EdgeRef} {k : MorphId} :
    (withoutEdge e g.morphs (g.referrers.items e)).get? k = (g.morphs.get? k).map (·.remove e) := by
  rw [lookup_withoutEdge]
  split
  · rfl
  · rename_i hk
    cases hm : g.morphs.get? k with
    | none => rfl
    | some m =>
      have hnot : m.contains e = false :=
        Bool.eq_false_iff.mpr fun he => hk (h.referrer.mpr ⟨m, hm, he⟩)
      rw [Option.map_some, Morph.remove_eq_self hnot]

theorem dropReferences (e : EdgeRef) :
    Coherent { g with
      morphs := withoutEdge e g.morphs (g.referrers.items e)
      referrers := g.referrers.removeKey e } := by
  have hold {k m} (hm : (withoutEdge e g.morphs (g.referrers.items e)).get? k = some m) :
      ∃ m₀, g.morphs.get? k = some m₀ ∧ m₀.remove e = m := by
    rw [h.lookup_withoutReferrers] at hm
    exact Option.map_eq_some_iff.mp hm
  refine h.withMorphs ?_ ?_ ?_ ?_
  · intro k
    rw [h.lookup_withoutReferrers, Option.map_map]
    refine congrArg (Option.map · _) (funext fun m => ?_)
    rw [Function.comp_apply, Morph.remove_eq_keep, Morph.bare_keep]
  · intro k m hm
    obtain ⟨m₀, hm₀, rfl⟩ := hold hm
    rw [Morph.remove_eq_keep]
    exact (h.morph hm₀).2.keep _
  · intro k m e' hm he'
    obtain ⟨m₀, hm₀, rfl⟩ := hold hm
    rw [Morph.remove_eq_keep, Morph.keep_owner]
    exact h.owned hm₀ (Morph.contains_remove.mp he').1
  · intro e' k
    rw [Index.mem_items_removeKey, h.referrer]
    constructor
    · rintro ⟨hne, m, hm, he'⟩
      exact ⟨m.remove e, by rw [h.lookup_withoutReferrers, hm, Option.map_some],
        Morph.contains_remove.mpr ⟨he', hne⟩⟩
    · rintro ⟨m, hm, he'⟩
      obtain ⟨m₀, hm₀, rfl⟩ := hold hm
      obtain ⟨he', hne⟩ := Morph.contains_remove.mp he'
      exact ⟨hne, m₀, hm₀, he'⟩

theorem eraseRelation {id : RelationId} {r : Relation} (hr : g.relations.get? id = some r)
    (hfree : ∀ k, ¬g.Refers k (.relation id)) :
    Coherent { g with
      relations := g.relations.erase id
      outgoing := g.outgoing.remove r.source id
      incoming := g.incoming.remove r.target id
      relationsByType := g.relationsByType.remove (Text.fold r.name) id } := by
  refine { h with owned := ?_, relation := ?_, outgoing := ?_, incoming := ?_, relationType := ?_ }
  · intro k m e hm he
    have ho := h.owned hm he
    cases e with
    | attr id => exact ho
    | relation id' =>
      have hne : id' ≠ id := by
        rintro rfl
        exact hfree k ⟨m, hm, he⟩
      simpa [edgeOwner, Table.lookup_erase, hne] using ho
  · intro k r' hr'
    rw [Table.lookup_erase] at hr'
    split at hr'
    · cases hr'
    · exact h.relation hr'
  · intro n k
    exact Index.mem_items_remove_erase Relation.source r h.outgoing hr
  · intro n k
    exact Index.mem_items_remove_erase Relation.target r h.incoming hr
  · intro t k
    exact Index.mem_items_remove_erase (fun r : Relation => Text.fold r.name) r h.relationType hr

theorem eraseAttribute {id : AttributeId} {a : Attribute} (ha : g.attributes.get? id = some a)
    (hfree : ∀ k, ¬g.Refers k (.attr id)) :
    Coherent { g with
      attributes := g.attributes.erase id
      attributesByType := g.attributesByType.remove (Text.fold a.name) id } := by
  refine { h with owned := ?_, attr := ?_, attributeType := ?_ }
  · intro k m e hm he
    have ho := h.owned hm he
    cases e with
    | relation id => exact ho
    | attr id' =>
      have hne : id' ≠ id := by
        rintro rfl
        exact hfree k ⟨m, hm, he⟩
      simpa [edgeOwner, Table.lookup_erase, hne] using ho
  · intro k a' ha'
    rw [Table.lookup_erase] at ha'
    split at ha'
    · cases ha'
    · exact h.attr ha'
  · intro t k
    exact Index.mem_items_remove_erase (fun a : Attribute => Text.fold a.name) a h.attributeType ha

theorem removeEdge {e : EdgeRef} (he : g.hasEdge e = true) :
    ∃ g', g.removeEdge e = .ok (g.referrers.items e, g') ∧ g'.Coherent ∧
      Pruned (fun _ e' => decide (e' = e)) (fun e' => decide (e' = e)) g g' := by
  let dropped : Graph := { g with
    morphs := withoutEdge e g.morphs (g.referrers.items e)
    referrers := g.referrers.removeKey e }
  have hd : dropped.Coherent := h.dropReferences e
  have hmorphs (k : MorphId) : dropped.morphs.get? k =
      (g.morphs.get? k).map (·.keep fun e' => !decide (e' = e)) := by
    refine h.lookup_withoutReferrers.trans (congrArg (Option.map · _) (funext fun m => ?_))
    rw [Morph.remove_eq_keep]
    simp
  have hfree (k : MorphId) : ¬dropped.Refers k e := by
    rintro ⟨m, hm, hme⟩
    rw [hmorphs] at hm
    obtain ⟨m₀, -, rfl⟩ := Option.map_eq_some_iff.mp hm
    simpa using (Morph.contains_keep.mp hme).2
  cases e with
  | relation id =>
    obtain ⟨r, hr⟩ := Table.contains_iff.mp he
    have hrun : g.removeEdge (.relation id) = .ok (g.referrers.items (.relation id), { dropped with
        relations := g.relations.erase id
        outgoing := g.outgoing.remove r.source id
        incoming := g.incoming.remove r.target id
        relationsByType := g.relationsByType.remove (Text.fold r.name) id }) := by
      simp only [Graph.removeEdge, requireEdge, he, if_true, eraseEdgeRecord, hr, dropped]
      rfl
    refine ⟨_, hrun, hd.eraseRelation hr hfree, ⟨fun _ => rfl, hmorphs, fun k => ?_, fun _ => ?_, rfl, rfl⟩⟩
    · rw [Table.lookup_erase]
      simp
    · simp [dropped]
  | attr id =>
    obtain ⟨a, ha⟩ := Table.contains_iff.mp he
    have hrun : g.removeEdge (.attr id) = .ok (g.referrers.items (.attr id), { dropped with
        attributes := g.attributes.erase id
        attributesByType := g.attributesByType.remove (Text.fold a.name) id }) := by
      simp only [Graph.removeEdge, requireEdge, he, if_true, eraseEdgeRecord, ha, dropped]
      rfl
    refine ⟨_, hrun, hd.eraseAttribute ha hfree, ⟨fun _ => rfl, hmorphs, fun _ => ?_, fun k => ?_, rfl, rfl⟩⟩
    · simp [dropped]
    · rw [Table.lookup_erase]
      simp

theorem withoutMorph {k : MorphId} {m : Morph} (hm : g.morphs.get? k = some m)
    (hfree : ∀ e, m.contains e = false) (hbasic : k ≠ MorphId.ofNode m.owner 0) :
    (g.withoutMorph k m).Coherent := by
  have hframed := h.framed.withoutMorph hm hbasic
  have hcontains {o} (ho : g.nodes.contains o = true) : (g.withoutMorph k m).nodes.contains o = true :=
    contains_withoutMorph.trans ho
  refine { h with
    node := ?_, morph := ?_, distinct := ?_, owned := ?_, referrer := ?_, relation := ?_, attr := ?_
    listed := hframed.listed
    present := hframed.present
    taken := hframed.taken
    named := hframed.named }
  · intro o n hn
    rw [nodes_withoutMorph] at hn
    split at hn
    · rename_i ho
      obtain ⟨n₀, hn₀, rfl⟩ := Option.map_eq_some_iff.mp hn
      obtain ⟨hid, hs⟩ := h.node hn₀
      exact ⟨hid, hs.withoutMorph (by rw [hid, ho]; exact hbasic)⟩
    · exact h.node hn
  · intro l m' hm'
    rw [morphs_withoutMorph] at hm'
    split at hm'
    · cases hm'
    · exact h.morph hm'
  · intro l l' m₁ m₂ a b hm₁ hm₂ hoo ha hb hfold
    rw [morphs_withoutMorph] at hm₁ hm₂
    split at hm₁
    · cases hm₁
    · split at hm₂
      · cases hm₂
      · exact h.distinct hm₁ hm₂ hoo ha hb hfold
  · intro l m' e hm' he
    rw [morphs_withoutMorph] at hm'
    split at hm'
    · cases hm'
    · exact h.owned hm' he
  · intro e l
    refine Iff.trans h.referrer ?_
    simp only [Refers, morphs_withoutMorph]
    by_cases hl : l = k
    · subst hl
      simp [hm, hfree]
    · simp [hl]
  · intro id r hr
    obtain ⟨hid, hc, hsource, htarget⟩ := h.relation hr
    exact ⟨hid, hc, hcontains hsource, hcontains htarget⟩
  · intro id a ha
    obtain ⟨hid, hc, howner⟩ := h.attr ha
    exact ⟨hid, hc, hcontains howner⟩

/-- A node may go with its morphs when these are without references and no edge is at the node. -/
theorem withoutNode {o : NodeId} {n : Node} (hn : g.nodes.get? o = some n)
    (hfree : ∀ k ∈ n.morphs, ∀ e, ¬g.Refers k e)
    (hrel : ∀ k r, g.relations.get? k = some r → r.source ≠ o ∧ r.target ≠ o)
    (hattr : ∀ k a, g.attributes.get? k = some a → a.owner ≠ o) :
    (g.withoutNode o n).Coherent := by
  have hframed := h.framed.withoutNode hn
  have hcontains {k} (hk : k ≠ o) : (g.withoutNode o n).nodes.contains k = g.nodes.contains k :=
    Bool.eq_iff_iff.mpr (contains_withoutNode.trans (and_iff_right hk))
  refine { h with
    node := ?_, morph := ?_, distinct := ?_, owned := ?_, referrer := ?_, relation := ?_, attr := ?_
    listed := hframed.listed
    present := hframed.present
    taken := hframed.taken
    named := hframed.named }
  · intro k n' hn'
    rw [nodes_withoutNode] at hn'
    split at hn'
    · cases hn'
    · exact h.node hn'
  · intro k m hm
    rw [morphs_withoutNode] at hm
    split at hm
    · cases hm
    · exact h.morph hm
  · intro k l m m' a b hm hm' hoo ha hb hfold
    rw [morphs_withoutNode] at hm hm'
    split at hm
    · cases hm
    · split at hm'
      · cases hm'
      · exact h.distinct hm hm' hoo ha hb hfold
  · intro k m e hm he
    rw [morphs_withoutNode] at hm
    split at hm
    · cases hm
    · exact h.owned hm he
  · intro e k
    refine Iff.trans h.referrer ?_
    simp only [Refers, morphs_withoutNode]
    by_cases hk : k ∈ n.morphs
    · simp only [hk, if_true, reduceCtorEq, false_and, exists_false, iff_false]
      exact hfree k hk e
    · simp [hk]
  · intro k r hr
    obtain ⟨hid, hc, hsource, htarget⟩ := h.relation hr
    obtain ⟨hso, hto⟩ := hrel k r hr
    exact ⟨hid, hc, (hcontains hso).trans hsource, (hcontains hto).trans htarget⟩
  · intro k a ha
    obtain ⟨hid, hc, howner⟩ := h.attr ha
    exact ⟨hid, hc, (hcontains (hattr k a ha)).trans howner⟩

theorem unlink_eq {k : MorphId} {e : EdgeRef} (hr : g.Refers k e) :
    ∃ left g', g.unlink k e = .ok (left, g') ∧ g'.Coherent ∧
      Pruned (fun l e' => decide (l = k ∧ e' = e)) (fun _ => false) g g' ∧
      (left = 0 ↔ ∀ l, g.Refers l e → l = k) := by
  obtain ⟨m, hm, he⟩ := hr
  have hrun : g.unlink k e = .ok ((g.referrers.remove e k).count e,
      { g with morphs := g.morphs.insert k (m.remove e), referrers := g.referrers.remove e k }) := by
    simp only [Graph.unlink, requireMorph, hm]
    exact if_pos he
  refine ⟨_, _, hrun, h.unlink hm, pruned_unlink hm, ?_⟩
  rw [Index.count_eq_zero]
  simp only [Index.mem_items_remove, h.referrer, true_and, not_and, not_imp_not]

end Coherent

namespace Sound

variable (h : g.Sound)

include h

/-- What is left is sound if every edge that stays keeps a reference. -/
theorem pruned {drops : MorphId → EdgeRef → Bool} {gone : EdgeRef → Bool} {g' : Graph} (hc : g'.Coherent)
    (hp : Pruned drops gone g g')
    (hkeep : ∀ e k, gone e = false → g.Refers k e → ∃ l, g.Refers l e ∧ drops l e = false) : g'.Sound where
  toCoherent := hc
  covered e he := by
    obtain ⟨he, hg⟩ := hp.hasEdge_iff.mp he
    obtain ⟨k, hk⟩ := h.covered e he
    obtain ⟨l, hl, hd⟩ := hkeep e k hg hk
    exact ⟨l, hp.refers_iff.mpr ⟨hl, hd⟩⟩

theorem withoutMorph {k : MorphId} {m : Morph} (hm : g.morphs.get? k = some m)
    (hfree : ∀ e, m.contains e = false) (hbasic : k ≠ MorphId.ofNode m.owner 0) :
    (g.withoutMorph k m).Sound where
  toCoherent := h.toCoherent.withoutMorph hm hfree hbasic
  covered e he := by
    obtain ⟨l, m', hm', hme⟩ := h.covered e he
    have hne : l ≠ k := by
      rintro rfl
      rw [hm] at hm'
      cases hm'
      rw [hfree] at hme
      cases hme
    exact ⟨l, m', by rw [morphs_withoutMorph, if_neg hne, hm'], hme⟩

theorem withoutNode {o : NodeId} {n : Node} (hn : g.nodes.get? o = some n)
    (hfree : ∀ k ∈ n.morphs, ∀ e, ¬g.Refers k e)
    (hrel : ∀ k r, g.relations.get? k = some r → r.source ≠ o ∧ r.target ≠ o)
    (hattr : ∀ k a, g.attributes.get? k = some a → a.owner ≠ o) : (g.withoutNode o n).Sound where
  toCoherent := h.toCoherent.withoutNode hn hfree hrel hattr
  covered e he := by
    obtain ⟨l, m, hm, hme⟩ := h.covered e he
    have hl : l ∉ n.morphs := fun hl => hfree l hl e ⟨m, hm, hme⟩
    exact ⟨l, m, by rw [morphs_withoutNode, if_neg hl, hm], hme⟩

end Sound

end Graph

end Morphology
