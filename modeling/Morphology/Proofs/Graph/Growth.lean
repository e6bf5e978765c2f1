import Morphology.Proofs.Graph.Frame

/-! Elementary changes that add to a coherent graph, or write new values into its records, keep it coherent: a
new node, a new morph, an edge put in place, and morphs with other references. -/

namespace Morphology

/-- What no change of a node record touches but the making and unmaking of its morphs. -/
structure Node.SameFrame (n n' : Node) : Prop where
  id : n'.id = n.id
  name : n'.name = n.name
  qualifier : n'.qualifier = n.qualifier
  morphs : n'.morphs = n.morphs
  nextMorph : n'.nextMorph = n.nextMorph
  active : ∀ k, n'.active = some k → n.active = some k ∨ k ∈ n.morphs

theorem Node.SameFrame.refl (n : Node) : n.SameFrame n :=
  ⟨rfl, rfl, rfl, rfl, rfl, fun _ => Or.inl⟩

theorem Node.SameFrame.bump (n : Node) : n.SameFrame n.bump :=
  ⟨rfl, rfl, rfl, rfl, rfl, fun _ => Or.inl⟩

theorem Node.SameFrame.sound {n n' : Node} (h : n.SameFrame n') (hs : n.Sound) : n'.Sound where
  plain := h.id ▸ hs.plain
  nodup := h.morphs ▸ hs.nodup
  basic := by rw [h.morphs, h.id, hs.basic]
  numbered := by rw [h.morphs, h.nextMorph, h.id]; exact hs.numbered
  active k hk := by
    rw [h.morphs]
    rcases h.active k hk with hk | hk
    · exact hs.active k hk
    · exact hk

theorem Node.sound_new {id : NodeId} (h : id.IsPlain) (name : String) (qualifier : Option String) :
    (Node.new id name qualifier).Sound where
  plain := h
  nodup := List.nodup_singleton _
  basic := rfl
  numbered k hk := ⟨0, Nat.zero_lt_one, List.mem_singleton.mp hk⟩
  active k hk := by cases hk

theorem Node.Sound.withMorph {n : Node} (h : n.Sound) : n.withMorph.Sound where
  plain := h.plain
  nodup := by
    refine Morph.nodup_concat h.nodup fun hmem => ?_
    obtain ⟨i, hi, hk⟩ := h.numbered _ hmem
    have := (MorphId.ofNode_inj hk).2
    omega
  basic := by
    show (n.morphs ++ _).head? = _
    rw [List.head?_append, h.basic]
    rfl
  numbered k hk := by
    rcases List.mem_append.mp hk with hk | hk
    · obtain ⟨i, hi, hk⟩ := h.numbered k hk
      exact ⟨i, Nat.lt_succ_of_lt hi, hk⟩
    · exact ⟨n.nextMorph, Nat.lt_succ_self _, List.mem_singleton.mp hk⟩
  active k hk := List.mem_append_left _ (h.active k hk)

def Relation.frame (r : Relation) : Relation := { r with modifiers := {} }

def Attribute.frame (a : Attribute) : Attribute := { a with value := "", typed := none, modifiers := {} }

namespace Graph

variable {g : Graph}

/-- A morph refers to one more edge, and nothing else is different. -/
structure Linked (k : MorphId) (e : EdgeRef) (g g' : Graph) : Prop where
  morphs : ∀ l, g'.morphs.get? l = if l = k then (g.morphs.get? l).map (·.insert e) else g.morphs.get? l
  rest : g' = { g with morphs := g'.morphs, referrers := g'.referrers }

namespace Linked

variable {k l : MorphId} {e e' : EdgeRef} {g' : Graph} (h : Linked k e g g')

include h

theorem nodes : g'.nodes = g.nodes := (congrArg Graph.nodes h.rest :)

theorem names : g'.names = g.names := (congrArg Graph.names h.rest :)

theorem edgeOwner (e' : EdgeRef) : g'.edgeOwner e' = g.edgeOwner e' :=
  (congrArg (Graph.edgeOwner · e') h.rest :)

theorem hasEdge (e' : EdgeRef) : g'.hasEdge e' = g.hasEdge e' :=
  (congrArg (Graph.hasEdge · e') h.rest :)

theorem refers (hr : g.Refers l e') : g'.Refers l e' := by
  obtain ⟨m, hm, he⟩ := hr
  by_cases hl : l = k
  · exact ⟨m.insert e, by rw [h.morphs, if_pos hl, hm]; rfl, Morph.contains_insert.mpr (Or.inr he)⟩
  · exact ⟨m, by rw [h.morphs, if_neg hl, hm], he⟩

end Linked

theorem link_eq {k : MorphId} {m : Morph} {e : EdgeRef} (hm : g.morphs.get? k = some m)
    (he : g.hasEdge e = true) :
    ∃ added g', g.link k e = .ok (added, g') ∧ Linked k e g g' ∧ g'.Refers k e ∧
      (g' = g ∨ g' = { g with
        morphs := g.morphs.insert k (m.insert e), referrers := g.referrers.add e k }) := by
  by_cases hin : m.contains e = true
  · refine ⟨false, g, ?_, ⟨fun l => ?_, rfl⟩, ⟨m, hm, hin⟩, Or.inl rfl⟩
    · simp only [Graph.link, requireEdge, he, if_true, requireMorph, hm]
      exact if_pos hin
    · split
      · rename_i hl
        rw [hl, hm, Option.map_some, Morph.insert_eq_self hin]
      · rfl
  · refine ⟨true, _, ?_, ⟨fun l => ?_, rfl⟩, ⟨m.insert e, ?_, ?_⟩, Or.inr rfl⟩
    · simp only [Graph.link, requireEdge, he, if_true, requireMorph, hm]
      exact if_neg hin
    · rw [Table.lookup_insert]
      split
      · rename_i hl
        rw [hl, hm, Option.map_some]
      · rfl
    · exact Table.lookup_insert_self
    · exact Morph.contains_insert.mpr (Or.inl rfl)

def withRelation (g : Graph) (r : Relation) : Graph :=
  { g with
    outgoing := g.outgoing.add r.source r.id
    incoming := g.incoming.add r.target r.id
    relationsByType := g.relationsByType.add (Text.fold r.name) r.id
    relations := g.relations.insert r.id r }

def withAttribute (g : Graph) (a : Attribute) : Graph :=
  { g with
    attributesByType := g.attributesByType.add (Text.fold a.name) a.id
    attributes := g.attributes.insert a.id a }

theorem putRelation_eq {r : Relation} (hs : g.nodes.contains r.source = true)
    (ht : g.nodes.contains r.target = true) :
    g.putRelation r = .ok (g.relations.get? r.id, g.withRelation r) := by
  obtain ⟨n, hs⟩ := Table.contains_iff.mp hs
  obtain ⟨n', ht⟩ := Table.contains_iff.mp ht
  simp only [Graph.putRelation, requireNode, hs, ht]
  rfl

theorem putAttribute_eq {a : Attribute} (ho : g.nodes.contains a.owner = true) :
    g.putAttribute a = .ok (g.attributes.get? a.id, g.withAttribute a) := by
  obtain ⟨n, ho⟩ := Table.contains_iff.mp ho
  simp only [Graph.putAttribute, requireNode, ho]
  rfl

theorem putRelation_eq_ok {r : Relation} {old : Option Relation} {g' : Graph} (h : g.putRelation r = .ok (old, g')) :
    g.nodes.contains r.source = true ∧ g.nodes.contains r.target = true ∧ old = g.relations.get? r.id ∧
      g' = g.withRelation r := by
  have hthere : g.nodes.contains r.source = true ∧ g.nodes.contains r.target = true := by
    simp only [putRelation, requireNode] at h
    split at h
    · split at h
      · exact ⟨Table.contains_iff.mpr ⟨_, ‹_›⟩, Table.contains_iff.mpr ⟨_, ‹_›⟩⟩
      · cases h
    · cases h
  rw [putRelation_eq hthere.1 hthere.2] at h
  cases h
  exact ⟨hthere.1, hthere.2, rfl, rfl⟩

theorem putAttribute_eq_ok {a : Attribute} {old : Option Attribute} {g' : Graph}
    (h : g.putAttribute a = .ok (old, g')) :
    g.nodes.contains a.owner = true ∧ old = g.attributes.get? a.id ∧ g' = g.withAttribute a := by
  have hthere : g.nodes.contains a.owner = true := by
    simp only [putAttribute, requireNode] at h
    split at h
    · exact Table.contains_iff.mpr ⟨_, ‹_›⟩
    · cases h
  rw [putAttribute_eq hthere] at h
  cases h
  exact ⟨hthere, rfl, rfl⟩

theorem edgeOwner_withRelation (g : Graph) (r : Relation) (e : EdgeRef) :
    (g.withRelation r).edgeOwner e = if e = .relation r.id then some r.source else g.edgeOwner e := by
  cases e with
  | attr id => simp [edgeOwner, withRelation]
  | relation id =>
    simp only [edgeOwner, withRelation, Table.lookup_insert, EdgeRef.relation.injEq]
    split <;> rfl

theorem edgeOwner_withAttribute (g : Graph) (a : Attribute) (e : EdgeRef) :
    (g.withAttribute a).edgeOwner e = if e = .attr a.id then some a.owner else g.edgeOwner e := by
  cases e with
  | relation id => simp [edgeOwner, withAttribute]
  | attr id =>
    simp only [edgeOwner, withAttribute, Table.lookup_insert, EdgeRef.attr.injEq]
    split <;> rfl

namespace Coherent

variable (h : g.Coherent)

include h

theorem modifyNode {id : NodeId} {f : Node → Node}
    (hf : ∀ n, g.nodes.get? id = some n → n.SameFrame (f n)) : (g.modifyNode id f).Coherent := by
  have hold {k n} (hn : (g.modifyNode id f).nodes.get? k = some n) :
      ∃ n₀, g.nodes.get? k = some n₀ ∧ n₀.SameFrame n := by
    rw [nodes_modifyNode] at hn
    split at hn
    · obtain ⟨n₀, hn₀, rfl⟩ := Option.map_eq_some_iff.mp hn
      exact ⟨n₀, hn₀, hf n₀ (by simp_all)⟩
    · exact ⟨n, hn, .refl n⟩
  have hnew {k n} (hn : g.nodes.get? k = some n) :
      ∃ n', (g.modifyNode id f).nodes.get? k = some n' ∧ n.SameFrame n' := by
    rw [nodes_modifyNode]
    split
    · rename_i hk
      subst hk
      exact ⟨f n, by rw [hn]; rfl, hf n hn⟩
    · exact ⟨n, hn, .refl n⟩
  have hcontains {k} : (g.modifyNode id f).nodes.contains k = true ↔ g.nodes.contains k = true :=
    iff_of_eq (congrArg (· = true) Table.contains_modify)
  refine { h with node := ?_, listed := ?_, present := ?_, relation := ?_, attr := ?_, taken := ?_, named := ?_ }
  · intro k n hn
    obtain ⟨n₀, hn₀, hs⟩ := hold hn
    exact ⟨hs.id.trans (h.node hn₀).1, hs.sound (h.node hn₀).2⟩
  · intro k m hm
    obtain ⟨n₀, hn₀, hk⟩ := h.listed hm
    obtain ⟨n', hn', hs⟩ := hnew hn₀
    exact ⟨n', hn', hs.morphs ▸ hk⟩
  · intro o n k hn hk
    obtain ⟨n₀, hn₀, hs⟩ := hold hn
    exact h.present hn₀ (hs.morphs ▸ hk)
  · intro k r hr
    obtain ⟨hid, hc, hsource, htarget⟩ := h.relation hr
    exact ⟨hid, hc, hcontains.mpr hsource, hcontains.mpr htarget⟩
  · intro k a ha
    obtain ⟨hid, hc, howner⟩ := h.attr ha
    exact ⟨hid, hc, hcontains.mpr howner⟩
  · intro k
    exact h.taken.trans hcontains.symm
  · intro key k hk
    obtain ⟨n₀, hn₀, hkey⟩ := h.named hk
    obtain ⟨n', hn', hs⟩ := hnew hn₀
    exact ⟨n', hn', by rw [hs.name, hs.qualifier, hkey]⟩

/-- Other references for the morphs that are there, with the index of referrers to match. -/
theorem withMorphs {ms : Table MorphId Morph} {x : Index EdgeRef MorphId}
    (hbare : ∀ k, (ms.get? k).map Morph.bare = (g.morphs.get? k).map Morph.bare)
    (hsound : ∀ k m, ms.get? k = some m → m.Sound)
    (howned : ∀ k m e, ms.get? k = some m → m.contains e = true → g.edgeOwner e = some m.owner)
    (hx : ∀ e k, k ∈ x.items e ↔ ∃ m, ms.get? k = some m ∧ m.contains e = true) :
    Coherent { g with morphs := ms, referrers := x } := by
  have hold {k m} (hm : ms.get? k = some m) : ∃ m₀, g.morphs.get? k = some m₀ ∧ m₀.bare = m.bare := by
    have hb := hbare k
    rw [hm] at hb
    exact Option.map_eq_some_iff.mp hb.symm
  have howner {m m' : Morph} (hb : m.bare = m'.bare) : m.owner = m'.owner := (Morph.bare_inj hb).2.2
  have hname {m m' : Morph} (hb : m.bare = m'.bare) : m.name = m'.name := (Morph.bare_inj hb).2.1
  have hframed : Framed { g with morphs := ms, referrers := x } :=
    SameFrame.framed (g := g) ⟨fun _ => rfl, hbare, rfl⟩ h.framed
  refine { h with
    morph := fun hm => ⟨hframed.morph hm, hsound _ _ hm⟩
    listed := hframed.listed
    present := hframed.present
    distinct := ?_, owned := ?_, referrer := ?_ }
  · intro k l m m' a b hm hm' hoo ha hb hfold
    obtain ⟨m₀, hm₀, hbare₀⟩ := hold hm
    obtain ⟨m₁, hm₁, hbare₁⟩ := hold hm'
    refine h.distinct hm₀ hm₁ ?_ ((hname hbare₀).trans ha) ((hname hbare₁).trans hb) hfold
    rw [howner hbare₀, howner hbare₁, hoo]
  · intro k m e hm he
    exact howned k m e hm he
  · intro e k
    exact hx e k

theorem replaceMorph {k : MorphId} {m m' : Morph} {x : Index EdgeRef MorphId} (hm : g.morphs.get? k = some m)
    (hbare : m'.bare = m.bare) (hs : m'.Sound)
    (howned : ∀ e, m'.contains e = true → g.edgeOwner e = some m.owner)
    (hx : ∀ e l, l ∈ x.items e ↔ if l = k then m'.contains e = true else l ∈ g.referrers.items e) :
    Coherent { g with morphs := g.morphs.insert k m', referrers := x } := by
  refine h.withMorphs ?_ ?_ ?_ ?_
  · intro l
    rw [Table.lookup_insert]
    split
    · rename_i hl
      rw [hl, hm, Option.map_some, Option.map_some, hbare]
    · rfl
  · intro l m₁ hm₁
    rw [Table.lookup_insert] at hm₁
    split at hm₁
    · cases hm₁
      exact hs
    · exact (h.morph hm₁).2
  · intro l m₁ e hm₁ he
    rw [Table.lookup_insert] at hm₁
    split at hm₁
    · cases hm₁
      rw [(Morph.bare_inj hbare).2.2]
      exact howned e he
    · exact h.owned hm₁ he
  · intro e l
    rw [hx, h.referrer, Table.lookup_insert]
    by_cases hl : l = k <;> simp [Refers, hl]

theorem link {k : MorphId} {m : Morph} {e : EdgeRef} (hm : g.morphs.get? k = some m)
    (ho : g.edgeOwner e = some m.owner) :
    Coherent { g with morphs := g.morphs.insert k (m.insert e), referrers := g.referrers.add e k } := by
  refine h.replaceMorph hm (Morph.bare_insert m e) ((h.morph hm).2.insert e) (fun e' he' => ?_) fun e' l => ?_
  · rcases Morph.contains_insert.mp he' with rfl | he'
    · exact ho
    · exact h.owned hm he'
  · rw [Index.mem_items_add, h.referrer]
    by_cases hl : l = k
    · subst hl
      simp [Refers, hm, Morph.contains_insert]
    · simp [hl]

theorem link_eq {k : MorphId} {m : Morph} {e : EdgeRef} (hm : g.morphs.get? k = some m)
    (ho : g.edgeOwner e = some m.owner) :
    ∃ added g', g.link k e = .ok (added, g') ∧ g'.Coherent ∧ Linked k e g g' ∧ g'.Refers k e := by
  obtain ⟨added, g', hrun, hl, hr, rfl | rfl⟩ := Graph.link_eq hm (hasEdge_of_owner ho)
  · exact ⟨added, g', hrun, h, hl, hr⟩
  · exact ⟨added, _, hrun, h.link hm ho, hl, hr⟩

/-- A morph that is not there yet can be added to the list of its node, and the node along with it. -/
theorem withMorph {book : NameBook} {n : Node} {l : MorphId} {name : Option String}
    (hfresh : g.morphs.get? l = none) (hs : n.Sound)
    (hlist : ∀ k, k ∈ n.morphs ↔ k = l ∨ ∃ n₀, g.nodes.get? n.id = some n₀ ∧ k ∈ n₀.morphs)
    (hkept : ∀ n₀, g.nodes.get? n.id = some n₀ → n₀.name = n.name ∧ n₀.qualifier = n.qualifier)
    (hname : ∀ k m a b, g.morphs.get? k = some m → m.owner = n.id → m.name = some a → name = some b →
      Text.fold a ≠ Text.fold b)
    (htaken : ∀ k, book.taken.contains k = true ↔ k = n.id ∨ g.names.taken.contains k = true)
    (hnamed : ∀ key k, book.byName.get? key = some k →
      g.names.byName.get? key = some k ∨ (k = n.id ∧ NameKey.ofName n.name n.qualifier = key))
    (hspace : book.space = g.names.space) : (g.withMorph book n l name).Coherent := by
  have hframed : (g.withMorph book n l name).Framed :=
    h.framed.withMorph hfresh hs.toNumbered hlist hkept htaken hnamed
  have hold {k m} (hm : g.morphs.get? k = some m) : (g.withMorph book n l name).morphs.get? k = some m := by
    have hne : k ≠ l := by
      rintro rfl
      rw [hfresh] at hm
      cases hm
    rw [morphs_withMorph, if_neg hne, hm]
  have hcontains {k} (hk : g.nodes.contains k = true) : (g.withMorph book n l name).nodes.contains k = true :=
    contains_withMorph.mpr (Or.inr hk)
  refine { h with
    node := ?_, morph := ?_, distinct := ?_, owned := ?_, referrer := ?_, relation := ?_, attr := ?_
    listed := hframed.listed
    present := hframed.present
    taken := hframed.taken
    named := hframed.named
    space := hspace ▸ h.space }
  · intro k n' hn'
    refine ⟨(hframed.node hn').1, ?_⟩
    rw [nodes_withMorph] at hn'
    split at hn'
    · cases hn'
      exact hs
    · exact (h.node hn').2
  · intro k m hm
    refine ⟨hframed.morph hm, ?_⟩
    rw [morphs_withMorph] at hm
    split at hm
    · cases hm
      exact Morph.sound_new _ _ _
    · exact (h.morph hm).2
  · intro k k' m m' a b hm hm' hoo ha hb hfold
    rw [morphs_withMorph] at hm hm'
    split at hm <;> split at hm'
    · rename_i hk hk'
      exact hk.trans hk'.symm
    · cases hm
      exact absurd hfold.symm (hname k' m' b a hm' hoo.symm hb ha)
    · cases hm'
      exact absurd hfold (hname k m a b hm hoo ha hb)
    · exact h.distinct hm hm' hoo ha hb hfold
  · intro k m e hm he
    rw [morphs_withMorph] at hm
    split at hm
    · cases hm
      rw [Morph.contains_new] at he
      cases he
    · exact h.owned hm he
  · intro e k
    refine Iff.trans h.referrer ⟨?_, ?_⟩
    · rintro ⟨m, hm, he⟩
      exact ⟨m, hold hm, he⟩
    · rintro ⟨m, hm, he⟩
      rw [morphs_withMorph] at hm
      split at hm
      · cases hm
        rw [Morph.contains_new] at he
        cases he
      · exact ⟨m, hm, he⟩
  · intro k r hr
    obtain ⟨hid, hc, hsource, htarget⟩ := h.relation hr
    exact ⟨hid, hc, hcontains hsource, hcontains htarget⟩
  · intro k a ha
    obtain ⟨hid, hc, howner⟩ := h.attr ha
    exact ⟨hid, hc, hcontains howner⟩

theorem createMorph {o : NodeId} {n : Node} {name : Option String} (hn : g.nodes.get? o = some n)
    (hname : ∀ k m a b, g.morphs.get? k = some m → m.owner = o → m.name = some a → name = some b →
      Text.fold a ≠ Text.fold b) :
    (g.withMorph g.names n.withMorph (MorphId.ofNode n.id n.nextMorph) name).Coherent := by
  obtain ⟨hid, hs⟩ := h.node hn
  subst hid
  refine h.withMorph (h.framed.fresh_morph hn) hs.withMorph (fun k => ?_) (fun n₀ hn₀ => ?_) hname (fun k => ?_)
    (fun key k hk => Or.inl hk) rfl
  · show k ∈ n.morphs ++ _ ↔ _ ∨ ∃ n₀, g.nodes.get? n.id = some n₀ ∧ _
    simp [hn, or_comm]
  · replace hn₀ : g.nodes.get? n.id = some n₀ := hn₀
    rw [hn] at hn₀
    cases hn₀
    exact ⟨rfl, rfl⟩
  · rw [h.taken]
    refine ⟨Or.inr, ?_⟩
    rintro (rfl | hk)
    · exact Table.contains_iff.mpr ⟨n, hn⟩
    · exact hk

theorem withNode {id : NodeId} (hid : id.IsPlain) (hfree : g.nodes.contains id = false) (name : String)
    (qualifier : Option String) : (g.withNode id name qualifier).Coherent := by
  have hnone : g.nodes.get? id = none := Table.contains_eq_false.mp hfree
  refine h.withMorph (h.framed.fresh_basic hfree) (Node.sound_new hid name qualifier) (fun k => ?_) (fun n₀ hn₀ => ?_)
    (fun _ _ _ _ _ _ _ hb => nomatch hb) (fun k => ?_) (fun key k hk => ?_) ?_
  · show k ∈ [MorphId.ofNode id 0] ↔ _ ∨ ∃ n₀, g.nodes.get? id = some n₀ ∧ _
    simp [hnone]
  · replace hn₀ : g.nodes.get? id = some n₀ := hn₀
    rw [hnone] at hn₀
    cases hn₀
  · rw [NameBook.taken_register, KeySet.contains_add]
    exact Iff.rfl
  · exact (NameBook.byName_register hk).imp_right fun ⟨hk, hkey⟩ => ⟨hk, hkey.symm⟩
  · unfold NameBook.register
    simp only
    split <;> rfl

theorem withRelation {r : Relation} (hc : r.IsComposed) (hs : g.nodes.contains r.source = true)
    (ht : g.nodes.contains r.target = true) : (g.withRelation r).Coherent := by
  have hsame {r₀} (hr₀ : g.relations.get? r.id = some r₀) :
      r₀.source = r.source ∧ r₀.name = r.name ∧ r₀.target = r.target :=
    h.relation_eq hr₀ rfl hc hs ht
  refine { h with
    owned := ?_, relation := ?_, outgoing := ?_, incoming := ?_, relationType := ?_ }
  · intro k m e hm he
    rw [edgeOwner_withRelation, ← h.owned hm he]
    split
    · rename_i hid
      subst hid
      obtain ⟨r₀, hr₀, hso⟩ := Option.map_eq_some_iff.mp (h.owned hm he)
      rw [h.owned hm he, ← hso, (hsame hr₀).1]
    · rfl
  · intro k r' hr'
    simp only [Graph.withRelation, Table.lookup_insert] at hr'
    split at hr'
    · rename_i hk
      cases hr'
      exact ⟨hk.symm, hc, hs, ht⟩
    · exact h.relation hr'
  · intro n k
    exact Index.mem_items_add_insert Relation.source r h.outgoing fun _ hr₀ => (hsame hr₀).1
  · intro n k
    exact Index.mem_items_add_insert Relation.target r h.incoming fun _ hr₀ => (hsame hr₀).2.2
  · intro t k
    exact Index.mem_items_add_insert (fun r : Relation => Text.fold r.name) r h.relationType fun _ hr₀ =>
      congrArg Text.fold (hsame hr₀).2.1

theorem withAttribute {a : Attribute} (hc : a.IsComposed) (ho : g.nodes.contains a.owner = true) :
    (g.withAttribute a).Coherent := by
  have hsame {a₀} (ha₀ : g.attributes.get? a.id = some a₀) : a₀.owner = a.owner ∧ a₀.name = a.name :=
    h.attr_eq ha₀ rfl hc ho
  refine { h with owned := ?_, attr := ?_, attributeType := ?_ }
  · intro k m e hm he
    rw [edgeOwner_withAttribute, ← h.owned hm he]
    split
    · rename_i hid
      subst hid
      obtain ⟨a₀, ha₀, hao⟩ := Option.map_eq_some_iff.mp (h.owned hm he)
      rw [h.owned hm he, ← hao, (hsame ha₀).1]
    · rfl
  · intro k a' ha'
    simp only [Graph.withAttribute, Table.lookup_insert] at ha'
    split at ha'
    · rename_i hk
      cases ha'
      exact ⟨hk.symm, hc, ho⟩
    · exact h.attr ha'
  · intro t k
    exact Index.mem_items_add_insert (fun a : Attribute => Text.fold a.name) a h.attributeType fun _ ha₀ =>
      congrArg Text.fold (hsame ha₀).2

/-- Edges that are there may be written anew, as long as they stay about the same. -/
theorem withEdges {rs : Table RelationId Relation} {as : Table AttributeId Attribute}
    (hrs : ∀ k, (rs.get? k).map Relation.frame = (g.relations.get? k).map Relation.frame)
    (has : ∀ k, (as.get? k).map Attribute.frame = (g.attributes.get? k).map Attribute.frame) :
    Coherent { g with relations := rs, attributes := as } := by
  have hrpart {κ : Type} (part : Relation → κ) (hp : ∀ r, part r.frame = part r) (k : RelationId) :
      (rs.get? k).map part = (g.relations.get? k).map part := by
    simpa only [Option.map_map, Function.comp_def, hp] using congrArg (Option.map part) (hrs k)
  have hapart {κ : Type} (part : Attribute → κ) (hp : ∀ a, part a.frame = part a) (k : AttributeId) :
      (as.get? k).map part = (g.attributes.get? k).map part := by
    simpa only [Option.map_map, Function.comp_def, hp] using congrArg (Option.map part) (has k)
  have hrindex {κ : Type} (part : Relation → κ) (hp : ∀ r, part r.frame = part r) {k : RelationId} {t : κ} :
      (∃ r, g.relations.get? k = some r ∧ part r = t) ↔ ∃ r, rs.get? k = some r ∧ part r = t := by
    rw [← Option.map_eq_some_iff, ← Option.map_eq_some_iff, hrpart part hp]
  have haindex {κ : Type} (part : Attribute → κ) (hp : ∀ a, part a.frame = part a) {k : AttributeId} {t : κ} :
      (∃ a, g.attributes.get? k = some a ∧ part a = t) ↔ ∃ a, as.get? k = some a ∧ part a = t := by
    rw [← Option.map_eq_some_iff, ← Option.map_eq_some_iff, hapart part hp]
  refine { h with
    owned := ?_, relation := ?_, attr := ?_, outgoing := ?_, incoming := ?_, relationType := ?_,
    attributeType := ?_ }
  · intro k m e hm he
    rw [← h.owned hm he]
    cases e with
    | relation id => exact hrpart (·.source) (fun _ => rfl) id
    | attr id => exact hapart (·.owner) (fun _ => rfl) id
  · intro k r hr
    obtain ⟨r₀, hr₀, hf⟩ := Option.map_eq_some_iff.mp ((hrs k).symm.trans (congrArg _ hr))
    have hparts : r₀.id = r.id ∧ r₀.name = r.name ∧ r₀.source = r.source ∧ r₀.target = r.target := by
      simpa [Relation.frame] using hf
    obtain ⟨hid, hname, hsource, htarget⟩ := hparts
    obtain ⟨hk, hc, hs, ht⟩ := h.relation hr₀
    refine ⟨hid ▸ hk, ?_, hsource ▸ hs, htarget ▸ ht⟩
    unfold Relation.IsComposed
    rw [← hid, ← hname, ← hsource, ← htarget]
    exact hc
  · intro k a ha
    obtain ⟨a₀, ha₀, hf⟩ := Option.map_eq_some_iff.mp ((has k).symm.trans (congrArg _ ha))
    have hparts : a₀.id = a.id ∧ a₀.name = a.name ∧ a₀.owner = a.owner := by
      simpa [Attribute.frame] using hf
    obtain ⟨hid, hname, howner⟩ := hparts
    obtain ⟨hk, hc, ho⟩ := h.attr ha₀
    refine ⟨hid ▸ hk, ?_, howner ▸ ho⟩
    unfold Attribute.IsComposed
    rw [← hid, ← hname, ← howner]
    exact hc
  · intro n k
    exact h.outgoing.trans (hrindex (·.source) fun _ => rfl)
  · intro n k
    exact h.incoming.trans (hrindex (·.target) fun _ => rfl)
  · intro t k
    exact h.relationType.trans (hrindex (fun r => Text.fold r.name) fun _ => rfl)
  · intro t k
    exact h.attributeType.trans (haindex (fun a => Text.fold a.name) fun _ => rfl)

end Coherent

namespace Sound

variable (h : g.Sound)

include h

theorem modifyNode {id : NodeId} {f : Node → Node} (hf : ∀ n, g.nodes.get? id = some n → n.SameFrame (f n)) :
    (g.modifyNode id f).Sound where
  toCoherent := h.toCoherent.modifyNode hf
  covered := h.covered

theorem link_eq {k : MorphId} {m : Morph} {e : EdgeRef} (hm : g.morphs.get? k = some m)
    (ho : g.edgeOwner e = some m.owner) :
    ∃ added g', g.link k e = .ok (added, g') ∧ g'.Sound ∧ Linked k e g g' ∧ g'.Refers k e := by
  obtain ⟨added, g', hrun, hc, hl, hr⟩ := h.toCoherent.link_eq hm ho
  refine ⟨added, g', hrun, ⟨hc, fun e' he => ?_⟩, hl, hr⟩
  rw [hl.hasEdge] at he
  obtain ⟨l, hr⟩ := h.covered e' he
  exact ⟨l, hl.refers hr⟩

theorem withEdges {rs : Table RelationId Relation} {as : Table AttributeId Attribute}
    (hrs : ∀ k, (rs.get? k).map Relation.frame = (g.relations.get? k).map Relation.frame)
    (has : ∀ k, (as.get? k).map Attribute.frame = (g.attributes.get? k).map Attribute.frame) :
    Sound { g with relations := rs, attributes := as } where
  toCoherent := h.toCoherent.withEdges hrs has
  covered e he := by
    refine h.covered e ?_
    cases e with
    | relation id =>
      obtain ⟨r, hr⟩ := Table.contains_iff.mp he
      obtain ⟨r₀, hr₀, -⟩ := Option.map_eq_some_iff.mp ((hrs id).symm.trans (congrArg _ hr))
      exact Table.contains_iff.mpr ⟨r₀, hr₀⟩
    | attr id =>
      obtain ⟨a, ha⟩ := Table.contains_iff.mp he
      obtain ⟨a₀, ha₀, -⟩ := Option.map_eq_some_iff.mp ((has id).symm.trans (congrArg _ ha))
      exact Table.contains_iff.mpr ⟨a₀, ha₀⟩

theorem withMorph {book : NameBook} {n : Node} {l : MorphId} {name : Option String}
    (hfresh : g.morphs.get? l = none) (hc : (g.withMorph book n l name).Coherent) :
    (g.withMorph book n l name).Sound where
  toCoherent := hc
  covered e he := by
    obtain ⟨k, m, hm, hme⟩ := h.covered e he
    have hne : k ≠ l := by
      rintro rfl
      rw [hfresh] at hm
      cases hm
    exact ⟨k, m, by rw [morphs_withMorph, if_neg hne, hm], hme⟩

theorem withNode {id : NodeId} (hid : id.IsPlain) (hfree : g.nodes.contains id = false) (name : String)
    (qualifier : Option String) : (g.withNode id name qualifier).Sound :=
  h.withMorph (h.framed.fresh_basic hfree) (h.toCoherent.withNode hid hfree name qualifier)

theorem importNode {id : NodeId} (hid : id.IsPlain) (name : String) (qualifier : Option String) :
    (g.importNode id name qualifier).2.Sound :=
  importNode_induction h (fun _ _ hfree => h.withNode hid hfree _ _) name qualifier

theorem resolve (name : String) (qualifier : Option String) : (g.resolve name qualifier).2.Sound :=
  resolve_induction h
    (fun _ _ => h.withNode (NameBook.mint_isPlain h.space _ _) (h.framed.unused_mint _ _) _ _) name qualifier

end Sound

end Graph

end Morphology
