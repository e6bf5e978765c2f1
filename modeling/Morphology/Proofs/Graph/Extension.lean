import Morphology.Grounding
import Morphology.Proofs.Graph.Removal

/-! Graphs that hold more than others. `Graph.Grown` is what documents do to a graph: nothing is lost or moved, and
no node gets a type. `Graph.Rewritten` is what is left to do when nothing is missing any more: records are written
again, and versions go up. -/

namespace Morphology

structure Node.Grown (n n' : Node) : Prop where
  id : n'.id = n.id
  name : n'.name = n.name
  qualifier : n'.qualifier = n.qualifier
  morphs : n.morphs <+: n'.morphs

theorem Node.Grown.refl (n : Node) : n.Grown n := ⟨rfl, rfl, rfl, List.prefix_rfl⟩

theorem Node.Grown.trans {n n' n'' : Node} (h : n.Grown n') (h' : n'.Grown n'') : n.Grown n'' :=
  ⟨h'.id.trans h.id, h'.name.trans h.name, h'.qualifier.trans h.qualifier, h.morphs.trans h'.morphs⟩

theorem Node.Grown.displayName {n n' : Node} (h : n.Grown n') : n'.displayName = n.displayName := by
  rw [Node.displayName, h.name, h.qualifier, Node.displayName]

theorem Node.Grown.of_unversioned {n n' : Node} (h : n'.unversioned = n.unversioned) : n.Grown n' where
  id := (congrArg Node.id h :)
  name := (congrArg Node.name h :)
  qualifier := (congrArg Node.qualifier h :)
  morphs := by
    have hmorphs : n'.morphs = n.morphs := (congrArg Node.morphs h :)
    rw [hmorphs]

structure Morph.Grown (m m' : Morph) : Prop where
  bare : m'.bare = m.bare
  contains : ∀ e, m.contains e = true → m'.contains e = true

theorem Morph.Grown.refl (m : Morph) : m.Grown m := ⟨rfl, fun _ he => he⟩

theorem Morph.Grown.trans {m m' m'' : Morph} (h : m.Grown m') (h' : m'.Grown m'') : m.Grown m'' :=
  ⟨h'.bare.trans h.bare, fun e he => h'.contains e (h.contains e he)⟩

/-- What is written down of an edge. -/
inductive EdgeRecord where
  | relation (r : Relation)
  | attr (a : Attribute)

namespace EdgeRecord

def ref : EdgeRecord → EdgeRef
  | relation r => .relation r.id
  | attr a => .attr a.id

/-- The node whose morphs may refer to the edge. -/
def owner : EdgeRecord → NodeId
  | relation r => r.source
  | attr a => a.owner

end EdgeRecord

namespace Graph

def record? (g : Graph) : EdgeRef → Option EdgeRecord
  | .relation id => (g.relations.get? id).map .relation
  | .attr id => (g.attributes.get? id).map .attr

def withRecord (g : Graph) : EdgeRecord → Graph
  | .relation r => g.withRelation r
  | .attr a => g.withAttribute a

/-- The graph with a reference more, if the morph is there. -/
def linking (g : Graph) (k : MorphId) (e : EdgeRef) : Graph :=
  match g.morphs.get? k with
  | some m =>
    if m.contains e then g
    else { g with morphs := g.morphs.insert k (m.insert e), referrers := g.referrers.add e k }
  | none => g

/-- The graph with references more, one after the other. -/
def linkingAll (g : Graph) (k : MorphId) (es : List EdgeRef) : Graph := es.foldl (·.linking k ·) g

/-- The graph with an edge written down for a morph. -/
def upserted (g : Graph) (k : MorphId) (w : EdgeRecord) : Graph :=
  ((g.withRecord w).linking k w.ref).modifyNode w.owner Node.bump

/-- The indexes list the edge where its record says. -/
def Indexes (g : Graph) : EdgeRecord → Prop
  | .relation r => r.id ∈ g.outgoing.items r.source ∧ r.id ∈ g.incoming.items r.target ∧
      r.id ∈ g.relationsByType.items (Text.fold r.name)
  | .attr a => a.id ∈ g.attributesByType.items (Text.fold a.name)

/-- An edge like this is there already, and nothing but its record may be another. -/
structure Bears (g : Graph) (k : MorphId) (w : EdgeRecord) : Prop where
  refers : g.Refers k w.ref
  there : g.hasEdge w.ref = true
  indexed : g.Indexes w

/-- The morph is there, and is one of the node. -/
def Owns (g : Graph) (o : NodeId) (k : MorphId) : Prop := ∃ m, g.morphs.get? k = some m ∧ m.owner = o

structure Grown (g g' : Graph) : Prop where
  names : ∀ {key k}, g.names.byName.get? key = some k → g'.names.byName.get? key = some k
  /-- A name that is new stands for a node without a type. -/
  untyped : ∀ {key k}, g'.names.byName.get? key = some k →
    g.names.byName.get? key = some k ∨ Grounding.nodeTypeOf g k = none
  nodes : ∀ {k n}, g.nodes.get? k = some n → ∃ n', g'.nodes.get? k = some n' ∧ n.Grown n'
  typed : ∀ k, Grounding.nodeTypeOf g' k = Grounding.nodeTypeOf g k
  morphs : ∀ {k m}, g.morphs.get? k = some m → ∃ m', g'.morphs.get? k = some m' ∧ m.Grown m'
  edges : ∀ {e}, g.hasEdge e = true → g'.hasEdge e = true
  indexes : ∀ {w}, g.Indexes w → g'.Indexes w

/-- Records are written again as `news` has them; else only versions of nodes are different. -/
structure Rewritten (news : EdgeRef → Option EdgeRecord) (g g' : Graph) : Prop where
  nodes : ∀ k, (g'.nodes.get? k).map Node.unversioned = (g.nodes.get? k).map Node.unversioned
  records : ∀ e, g'.record? e = (news e).or (g.record? e)
  rest : g' = { g with nodes := g'.nodes, relations := g'.relations, attributes := g'.attributes }

/-- Nothing but versions of nodes is different. -/
structure SameButVersions (g g' : Graph) : Prop where
  nodes : ∀ k, (g'.nodes.get? k).map Node.unversioned = (g.nodes.get? k).map Node.unversioned
  rest : g' = { g with nodes := g'.nodes }

variable {g g' g'' : Graph} {k l : MorphId} {w : EdgeRecord} {e e' : EdgeRef} {es : List EdgeRef}

theorem hasEdge_eq (g : Graph) (e : EdgeRef) : g.hasEdge e = (g.record? e).isSome := by
  cases e <;> simp [hasEdge, record?, Table.contains]

theorem edges_eq_of_records (hr : ∀ e, g'.record? e = g.record? e) :
    g'.relations = g.relations ∧ g'.attributes = g.attributes := by
  refine ⟨Table.ext_get? fun id => ?_, Table.ext_get? fun id => ?_⟩
  · exact Option.map_injective (fun _ _ => EdgeRecord.relation.inj) (hr (.relation id))
  · exact Option.map_injective (fun _ _ => EdgeRecord.attr.inj) (hr (.attr id))

theorem record?_withRecord : (g.withRecord w).record? e = if e = w.ref then some w else g.record? e := by
  cases w <;> cases e <;> simp only [withRecord, withRelation, withAttribute, record?, EdgeRecord.ref,
    Table.lookup_insert, EdgeRef.relation.injEq, EdgeRef.attr.injEq, reduceCtorEq, if_false]
  all_goals split <;> rfl

theorem record?_insertRelation (g : Graph) (id : RelationId) (r : Relation) (e : EdgeRef) :
    record? { g with relations := g.relations.insert id r } e =
      if e = .relation id then some (.relation r) else g.record? e := by
  cases e with
  | relation _ =>
    simp only [record?, Table.lookup_insert, EdgeRef.relation.injEq]
    split <;> rfl
  | attr _ => rfl

theorem record?_insertAttribute (g : Graph) (id : AttributeId) (a : Attribute) (e : EdgeRef) :
    record? { g with attributes := g.attributes.insert id a } e =
      if e = .attr id then some (.attr a) else g.record? e := by
  cases e with
  | relation _ => rfl
  | attr _ =>
    simp only [record?, Table.lookup_insert, EdgeRef.attr.injEq]
    split <;> rfl

theorem indexes_withRecord : (g.withRecord w).Indexes w := by
  cases w <;> simp [withRecord, withRelation, withAttribute, Indexes, Index.mem_items_add]

theorem record?_eraseEdgeRecord (g : Graph) (e e' : EdgeRef) :
    (g.eraseEdgeRecord e).record? e' = if e' = e then none else g.record? e' := by
  cases e with
  | relation id =>
    cases e' with
    | relation id' =>
      cases hr : g.relations.get? id with
      | none =>
        simp only [eraseEdgeRecord, hr, EdgeRef.relation.injEq]
        split
        · rename_i hid
          rw [hid, record?, hr, Option.map_none]
        · rfl
      | some r =>
        simp only [eraseEdgeRecord, hr, record?, Table.lookup_erase, EdgeRef.relation.injEq]
        split <;> rfl
    | attr id' =>
      simp only [eraseEdgeRecord, reduceCtorEq, if_false]
      split <;> rfl
  | attr id =>
    cases e' with
    | attr id' =>
      cases ha : g.attributes.get? id with
      | none =>
        simp only [eraseEdgeRecord, ha, EdgeRef.attr.injEq]
        split
        · rename_i hid
          rw [hid, record?, ha, Option.map_none]
        · rfl
      | some a =>
        simp only [eraseEdgeRecord, ha, record?, Table.lookup_erase, EdgeRef.attr.injEq]
        split <;> rfl
    | relation id' =>
      simp only [eraseEdgeRecord, reduceCtorEq, if_false]
      split <;> rfl

theorem record_of_eraseEdgeRecord (hw : (g.eraseEdgeRecord e).record? e' = some w) :
    e' ≠ e ∧ g.record? e' = some w := by
  rw [record?_eraseEdgeRecord] at hw
  split at hw
  · cases hw
  · exact ⟨‹_›, hw⟩

theorem record?_removeEdge {losers : List MorphId} (h : g.removeEdge e = .ok (losers, g')) :
    g'.record? e' = (g.eraseEdgeRecord e).record? e' := by
  obtain ⟨-, rfl⟩ := removeEdge_eq_ok h
  cases e' <;> rfl

theorem record_of_removeEdge {losers : List MorphId} (h : g.removeEdge e = .ok (losers, g'))
    (hw : g'.record? e' = some w) : e' ≠ e ∧ g.record? e' = some w :=
  record_of_eraseEdgeRecord ((record?_removeEdge h).symm.trans hw)

theorem indexes_eraseEdgeRecord (hne : w.ref ≠ e) (hx : g.Indexes w) : (g.eraseEdgeRecord e).Indexes w := by
  cases e with
  | relation id =>
    simp only [eraseEdgeRecord]
    split
    · exact hx
    · cases w with
      | relation r =>
        have hid : r.id ≠ id := fun hid => hne (congrArg EdgeRef.relation hid)
        simp only [Indexes, Index.mem_items_remove]
        exact ⟨⟨fun hk => hid hk.2, hx.1⟩, ⟨fun hk => hid hk.2, hx.2.1⟩, fun hk => hid hk.2, hx.2.2⟩
      | attr a => exact hx
  | attr id =>
    simp only [eraseEdgeRecord]
    split
    · exact hx
    · cases w with
      | relation r => exact hx
      | attr a =>
        have hid : a.id ≠ id := fun hid => hne (congrArg EdgeRef.attr hid)
        simp only [Indexes, Index.mem_items_remove]
        exact ⟨fun hk => hid hk.2, hx⟩

theorem withRecord_nodes (g : Graph) (w : EdgeRecord) : (g.withRecord w).nodes = g.nodes := by cases w <;> rfl

theorem withRecord_morphs (g : Graph) (w : EdgeRecord) : (g.withRecord w).morphs = g.morphs := by cases w <;> rfl

theorem withRecord_names (g : Graph) (w : EdgeRecord) : (g.withRecord w).names = g.names := by cases w <;> rfl

theorem linking_cases (g : Graph) (k : MorphId) (e : EdgeRef) :
    ∃ ms x, g.linking k e = { g with morphs := ms, referrers := x } := by
  unfold linking
  split
  · split <;> exact ⟨_, _, rfl⟩
  · exact ⟨_, _, rfl⟩

theorem transitions_linking (g : Graph) (k : MorphId) (e : EdgeRef) : (g.linking k e).transitions = g.transitions := by
  obtain ⟨ms, x, h⟩ := linking_cases g k e
  rw [h]

theorem linking_nodes (g : Graph) (k : MorphId) (e : EdgeRef) : (g.linking k e).nodes = g.nodes := by
  obtain ⟨ms, x, h⟩ := linking_cases g k e
  rw [h]

theorem record?_linking : (g.linking k e).record? e' = g.record? e' := by
  obtain ⟨ms, x, h⟩ := linking_cases g k e
  rw [h]
  cases e' <;> rfl

theorem edgeOwner_linking (g : Graph) (k : MorphId) (e e' : EdgeRef) :
    (g.linking k e).edgeOwner e' = g.edgeOwner e' := by
  obtain ⟨ms, x, h⟩ := linking_cases g k e
  rw [h]
  cases e' <;> rfl

theorem indexes_linking : (g.linking k e).Indexes w ↔ g.Indexes w := by
  obtain ⟨ms, x, h⟩ := linking_cases g k e
  rw [h]
  cases w <;> rfl

theorem linking_of_refers (h : g.Refers k e) : g.linking k e = g := by
  obtain ⟨m, hm, he⟩ := h
  simp only [linking, hm, he, if_true]

theorem morphs_linking :
    (g.linking k e).morphs.get? l = if l = k then (g.morphs.get? l).map (·.insert e) else g.morphs.get? l := by
  unfold linking
  cases hm : g.morphs.get? k with
  | none =>
    simp only
    split
    · rename_i hl
      rw [hl, hm]
      rfl
    · rfl
  | some m =>
    simp only
    split
    · rename_i he
      split
      · rename_i hl
        rw [hl, hm, Option.map_some, Morph.insert_eq_self he]
      · rfl
    · rw [Table.lookup_insert]
      split
      · rename_i hl
        rw [hl, hm, Option.map_some]
      · rfl

theorem link_eq_linking {m : Morph} (hm : g.morphs.get? k = some m) (he : g.hasEdge e = true) :
    g.link k e = .ok (!m.contains e, g.linking k e) := by
  cases hin : m.contains e with
  | true =>
    rw [linking_of_refers ⟨m, hm, hin⟩]
    simp only [link, requireEdge, he, if_true, requireMorph, hm]
    exact if_pos hin
  | false =>
    simp only [link, requireEdge, he, if_true, requireMorph, hm, linking, hin]
    exact if_neg (by simp [hin])

theorem link_eq_ok {added : Bool} (h : g.link k e = .ok (added, g')) :
    ∃ m, g.morphs.get? k = some m ∧ added = !m.contains e ∧ g' = g.linking k e := by
  have hthere : g.hasEdge e = true ∧ ∃ m, g.morphs.get? k = some m := by
    simp only [link, requireEdge, requireMorph] at h
    split at h
    · split at h
      · exact ⟨‹_›, _, ‹_›⟩
      · cases h
    · cases h
  obtain ⟨he, m, hm⟩ := hthere
  rw [link_eq_linking hm he] at h
  cases h
  exact ⟨m, hm, rfl, rfl⟩

theorem linkingAll_cases (g : Graph) (k : MorphId) (es : List EdgeRef) :
    ∃ ms x, g.linkingAll k es = { g with morphs := ms, referrers := x } := by
  induction es generalizing g with
  | nil => exact ⟨_, _, rfl⟩
  | cons e es ih =>
    obtain ⟨ms, x, h⟩ := linking_cases g k e
    obtain ⟨ms', x', h'⟩ := ih (g.linking k e)
    refine ⟨ms', x', ?_⟩
    rw [linkingAll, List.foldl_cons, ← linkingAll, h', h]

theorem linkingAll_nodes (g : Graph) (k : MorphId) (es : List EdgeRef) : (g.linkingAll k es).nodes = g.nodes := by
  obtain ⟨ms, x, h⟩ := linkingAll_cases g k es
  rw [h]

theorem morphs_linkingAll (hl : l ≠ k) : (g.linkingAll k es).morphs.get? l = g.morphs.get? l := by
  induction es generalizing g with
  | nil => rfl
  | cons e es ih =>
    have hlinked : (g.linking k e).morphs.get? l = g.morphs.get? l := morphs_linking.trans (if_neg hl)
    exact ih.trans hlinked

theorem refers_linking {m : Morph} (hm : g.morphs.get? k = some m) : (g.linking k e).Refers k e :=
  ⟨m.insert e, by rw [morphs_linking, if_pos rfl, hm]; rfl, Morph.contains_insert.mpr (Or.inl rfl)⟩

theorem record?_upserted : (g.upserted k w).record? e = if e = w.ref then some w else g.record? e := by
  have hlinked : ((g.withRecord w).linking k w.ref).record? e = _ := record?_linking
  rw [record?_withRecord] at hlinked
  cases e <;> exact hlinked

theorem bears_upserted {m : Morph} (hm : g.morphs.get? k = some m) : (g.upserted k w).Bears k w where
  refers := by
    rw [← withRecord_morphs g w] at hm
    exact refers_linking hm
  there := by rw [hasEdge_eq, record?_upserted, if_pos rfl, Option.isSome_some]
  indexed := by
    have hlinked := (indexes_linking (k := k) (e := w.ref)).mpr (indexes_withRecord (g := g) (w := w))
    cases w <;> exact hlinked

namespace Grown

theorem refl (g : Graph) : g.Grown g where
  names := id
  untyped := Or.inl
  nodes {_ n} hn := ⟨n, hn, .refl n⟩
  typed _ := rfl
  morphs {_ m} hm := ⟨m, hm, .refl m⟩
  edges := id
  indexes := id

theorem trans (h : g.Grown g') (h' : g'.Grown g'') : g.Grown g'' where
  names hk := h'.names (h.names hk)
  untyped {key k} hk := by
    rcases h'.untyped hk with hk | hk
    · exact h.untyped hk
    · exact Or.inr (h.typed k ▸ hk)
  nodes hn := by
    obtain ⟨n', hn', hg⟩ := h.nodes hn
    obtain ⟨n'', hn'', hg'⟩ := h'.nodes hn'
    exact ⟨n'', hn'', hg.trans hg'⟩
  typed k := (h'.typed k).trans (h.typed k)
  morphs hm := by
    obtain ⟨m', hm', hg⟩ := h.morphs hm
    obtain ⟨m'', hm'', hg'⟩ := h'.morphs hm'
    exact ⟨m'', hm'', hg.trans hg'⟩
  edges he := h'.edges (h.edges he)
  indexes hw := h'.indexes (h.indexes hw)

variable (h : g.Grown g')

include h

theorem contains_node {o : NodeId} (ho : g.nodes.contains o = true) : g'.nodes.contains o = true := by
  obtain ⟨n, hn⟩ := Table.contains_iff.mp ho
  obtain ⟨n', hn', -⟩ := h.nodes hn
  exact Table.contains_iff.mpr ⟨n', hn'⟩

theorem owns {o : NodeId} (hk : g.Owns o k) : g'.Owns o k := by
  obtain ⟨m, hm, ho⟩ := hk
  obtain ⟨m', hm', hgm⟩ := h.morphs hm
  exact ⟨m', hm', (Morph.bare_inj hgm.bare).2.2.trans ho⟩

theorem refers (he : g.Refers k e) : g'.Refers k e := by
  obtain ⟨m, hm, he⟩ := he
  obtain ⟨m', hm', hg⟩ := h.morphs hm
  exact ⟨m', hm', hg.contains _ he⟩

theorem bears (hb : g.Bears k w) : g'.Bears k w where
  refers := h.refers hb.refers
  there := h.edges hb.there
  indexed := h.indexes hb.indexed

end Grown

theorem nodeTypeOf_congr {o : NodeId}
    (h : (g'.nodes.get? o).map Node.unversioned = (g.nodes.get? o).map Node.unversioned) :
    Grounding.nodeTypeOf g' o = Grounding.nodeTypeOf g o := by
  have hpart (ns : Option Node) : ns.bind (·.nodeType) = (ns.map Node.unversioned).bind (·.nodeType) := by
    cases ns <;> rfl
  rw [Grounding.nodeTypeOf, hpart, h, ← hpart, Grounding.nodeTypeOf]

namespace Rewritten

variable {news news' : EdgeRef → Option EdgeRecord}

theorem refl (g : Graph) : Rewritten (fun _ => none) g g := ⟨fun _ => rfl, fun _ => rfl, rfl⟩

theorem trans (h : Rewritten news g g') (h' : Rewritten news' g' g'') :
    Rewritten (fun e => (news' e).or (news e)) g g'' where
  nodes k := (h'.nodes k).trans (h.nodes k)
  records e := by rw [h'.records, h.records, Option.or_assoc]
  rest := by
    rw [h'.rest, h.rest]

variable (h : Rewritten news g g')

include h

theorem names : g'.names = g.names := (congrArg Graph.names h.rest :)

theorem morphs : g'.morphs = g.morphs := (congrArg Graph.morphs h.rest :)

theorem grown : g.Grown g' where
  names hk := by rwa [h.names]
  untyped hk := by
    rw [h.names] at hk
    exact Or.inl hk
  nodes {k n} hn := by
    have hk := h.nodes k
    rw [hn] at hk
    obtain ⟨n', hn', hs⟩ := Option.map_eq_some_iff.mp hk
    exact ⟨n', hn', .of_unversioned hs⟩
  typed k := nodeTypeOf_congr (h.nodes k)
  morphs {k m} hm := by
    rw [h.morphs]
    exact ⟨m, hm, .refl m⟩
  edges {e} he := by
    rw [hasEdge_eq] at he ⊢
    rw [h.records]
    cases news e with
    | none => exact he
    | some w => rfl
  indexes {w} hw := by
    rw [h.rest]
    cases w <;> exact hw

theorem framed (hf : g.Framed) : g'.Framed := by
  have hframe (ns : Option Node) : ns.map Node.frame = (ns.map Node.unversioned).map Node.frame := by
    cases ns <;> rfl
  refine SameFrame.framed ⟨fun k => ?_, fun k => by rw [h.morphs], h.names⟩ hf
  rw [hframe, h.nodes, ← hframe]

/-- Where every record stays what it was, only versions are different. -/
theorem eq_of_records (hr : ∀ e, g'.record? e = g.record? e) : g' = { g with nodes := g'.nodes } := by
  obtain ⟨hrelations, hattributes⟩ := edges_eq_of_records hr
  have hrest := h.rest
  rwa [hrelations, hattributes] at hrest

end Rewritten

theorem linking_withNodes (g : Graph) (ns : Table NodeId Node) (k : MorphId) (e : EdgeRef) :
    linking { g with nodes := ns } k e = { g.linking k e with nodes := ns } := by
  unfold linking
  cases hm : g.morphs.get? k with
  | none => rfl
  | some m =>
    simp only
    split <;> rfl

namespace SameButVersions

theorem refl (g : Graph) : g.SameButVersions g := ⟨fun _ => rfl, rfl⟩

theorem bump (g : Graph) (o : NodeId) : g.SameButVersions (g.modifyNode o Node.bump) := by
  refine ⟨fun k => ?_, rfl⟩
  rw [nodes_modifyNode]
  split
  · rw [Option.map_map]
    rfl
  · rfl

variable (h : g.SameButVersions g')

include h

theorem symm : g'.SameButVersions g where
  nodes k := (h.nodes k).symm
  rest := by rw [h.rest]

theorem trans (h' : g'.SameButVersions g'') : g.SameButVersions g'' where
  nodes k := (h'.nodes k).trans (h.nodes k)
  rest := by rw [h'.rest, h.rest]

theorem morphs : g'.morphs = g.morphs := (congrArg Graph.morphs h.rest :)

theorem names : g'.names = g.names := (congrArg Graph.names h.rest :)

theorem transitions : g'.transitions = g.transitions := (congrArg Graph.transitions h.rest :)

theorem relations : g'.relations = g.relations := (congrArg Graph.relations h.rest :)

theorem attributes : g'.attributes = g.attributes := (congrArg Graph.attributes h.rest :)

theorem edgeOwner (e : EdgeRef) : g'.edgeOwner e = g.edgeOwner e := (congrArg (Graph.edgeOwner · e) h.rest :)

theorem hasEdge (e : EdgeRef) : g'.hasEdge e = g.hasEdge e := (congrArg (Graph.hasEdge · e) h.rest :)

theorem refers_iff : g'.Refers k e ↔ g.Refers k e := by
  rw [Refers, h.morphs, Refers]

theorem touched : g.Touched g' where
  nodes := h.nodes
  morphs k := by simp [h.morphs, Morph.keep_true]
  relations k := by rw [h.relations, if_neg Bool.false_ne_true]
  attributes k := by rw [h.attributes, if_neg Bool.false_ne_true]
  transitions := h.transitions
  names := h.names

/-- What does not look at the nodes does the same to both graphs. -/
theorem map {f : Graph → Graph} (hf : ∀ g ns, f { g with nodes := ns } = { f g with nodes := ns }) :
    (f g).SameButVersions (f g') := by
  have hkept : (f g).nodes = g.nodes := (congrArg Graph.nodes (hf g g.nodes) :)
  have hdone : f g' = { f g with nodes := g'.nodes } := by rw [← hf, ← h.rest]
  rw [hdone]
  exact ⟨fun o => hkept ▸ h.nodes o, rfl⟩

theorem linking (k : MorphId) (e : EdgeRef) : (g.linking k e).SameButVersions (g'.linking k e) :=
  h.map (f := (·.linking k e)) fun g ns => linking_withNodes g ns k e

theorem linkingAll (k : MorphId) (es : List EdgeRef) : (g.linkingAll k es).SameButVersions (g'.linkingAll k es) := by
  induction es generalizing g g' with
  | nil => exact h
  | cons e es ih => exact ih (h.linking k e)

end SameButVersions

/-- Writing an edge down that is there already. -/
theorem Bears.rewritten (hb : g.Bears k w) :
    Rewritten (fun e => if e = w.ref then some w else none) g (g.upserted k w) := by
  have hlink : (g.withRecord w).linking k w.ref = g.withRecord w := by
    refine linking_of_refers ?_
    obtain ⟨m, hm, he⟩ := hb.refers
    exact ⟨m, by rw [withRecord_morphs, hm], he⟩
  refine ⟨fun o => ?_, fun e => ?_, ?_⟩
  · rw [upserted, hlink, nodes_modifyNode, withRecord_nodes]
    split
    · rw [Option.map_map]
      rfl
    · rfl
  · rw [record?_upserted]
    split <;> rfl
  · rw [upserted, hlink]
    cases w with
    | relation r =>
      obtain ⟨hout, hin, htype⟩ := hb.indexed
      simp only [withRecord, withRelation, modifyNode, Index.add_of_mem hout, Index.add_of_mem hin,
        Index.add_of_mem htype]
    | attr a => simp only [withRecord, withAttribute, modifyNode, Index.add_of_mem hb.indexed]

theorem grown_withRecord (g : Graph) (w : EdgeRecord) : g.Grown (g.withRecord w) where
  names hk := by rwa [withRecord_names]
  untyped hk := Or.inl (withRecord_names g w ▸ hk)
  nodes {k n} hn := ⟨n, by rw [withRecord_nodes, hn], .refl n⟩
  typed k := by rw [Grounding.nodeTypeOf, withRecord_nodes, Grounding.nodeTypeOf]
  morphs {k m} hm := ⟨m, by rw [withRecord_morphs, hm], .refl m⟩
  edges {e} he := by
    rw [hasEdge_eq] at he ⊢
    rw [record?_withRecord]
    split
    · rfl
    · exact he
  indexes {v} hv := by
    cases w <;> cases v <;> simp only [withRecord, withRelation, withAttribute, Indexes, Index.mem_items_add] at hv ⊢
    · exact ⟨Or.inr hv.1, Or.inr hv.2.1, Or.inr hv.2.2⟩
    · exact hv
    · exact hv
    · exact Or.inr hv

theorem grown_linking (g : Graph) (k : MorphId) (e : EdgeRef) : g.Grown (g.linking k e) := by
  have hmorphs {l m} (hm : g.morphs.get? l = some m) : ∃ m', (g.linking k e).morphs.get? l = some m' ∧ m.Grown m' := by
    rw [morphs_linking, hm]
    split
    · exact ⟨m.insert e, rfl, m.bare_insert e, fun e' he => Morph.contains_insert.mpr (Or.inr he)⟩
    · exact ⟨m, rfl, .refl m⟩
  have hindexes {w} (hw : g.Indexes w) : (g.linking k e).Indexes w := indexes_linking.mpr hw
  have hedges {e'} (he : g.hasEdge e' = true) : (g.linking k e).hasEdge e' = true := by
    rwa [hasEdge_eq, record?_linking, ← hasEdge_eq]
  obtain ⟨ms, x, h⟩ := linking_cases g k e
  rw [h] at hmorphs hindexes hedges ⊢
  exact { Grown.refl g with morphs := hmorphs, edges := hedges, indexes := hindexes }

theorem grown_linkingAll (g : Graph) (k : MorphId) (es : List EdgeRef) : g.Grown (g.linkingAll k es) := by
  induction es generalizing g with
  | nil => exact .refl g
  | cons e es ih => exact (grown_linking g k e).trans (ih _)

theorem grown_bump (g : Graph) (o : NodeId) : g.Grown (g.modifyNode o Node.bump) := by
  have hrewritten : Rewritten (fun _ => none) g (g.modifyNode o Node.bump) :=
    ⟨(SameButVersions.bump g o).nodes, fun e => by cases e <;> rfl, rfl⟩
  exact hrewritten.grown

theorem grown_upserted (g : Graph) (k : MorphId) (w : EdgeRecord) : g.Grown (g.upserted k w) :=
  ((grown_withRecord g w).trans (grown_linking _ k w.ref)).trans (grown_bump _ w.owner)

theorem grown_withMorph {book : NameBook} {n : Node} {name : Option String} (hfresh : g.morphs.get? l = none)
    (hkept : ∀ n₀, g.nodes.get? n.id = some n₀ → n₀.Grown n) (htyped : Grounding.nodeTypeOf g n.id = n.nodeType)
    (hnames : ∀ key k, g.names.byName.get? key = some k → book.byName.get? key = some k)
    (huntyped : ∀ key k, book.byName.get? key = some k →
      g.names.byName.get? key = some k ∨ Grounding.nodeTypeOf g k = none) :
    g.Grown (g.withMorph book n l name) where
  names hk := hnames _ _ hk
  untyped hk := huntyped _ _ hk
  nodes {k n₀} hn := by
    rw [nodes_withMorph]
    split
    · rename_i hk
      exact ⟨n, rfl, hkept n₀ (hk ▸ hn)⟩
    · exact ⟨n₀, hn, .refl n₀⟩
  typed k := by
    rw [Grounding.nodeTypeOf, nodes_withMorph]
    split
    · rename_i hk
      rw [hk, htyped]
      rfl
    · rfl
  morphs {k m} hm := by
    have hne : k ≠ l := by
      rintro rfl
      rw [hfresh] at hm
      cases hm
    exact ⟨m, by rw [morphs_withMorph, if_neg hne, hm], .refl m⟩
  edges {e} he := by cases e <;> exact he
  indexes {w} hw := by cases w <;> exact hw

theorem record?_withMorph {book : NameBook} {n : Node} {name : Option String} :
    (g.withMorph book n l name).record? e = g.record? e := by
  cases e <;> rfl

namespace Framed

variable (h : g.Framed)

include h

theorem grown_withNode {id : NodeId} (hfree : g.nodes.contains id = false) (name : String)
    (qualifier : Option String) : g.Grown (g.withNode id name qualifier) := by
  have hnone : g.nodes.get? id = none := Table.contains_eq_false.mp hfree
  have htype : Grounding.nodeTypeOf g id = none := by rw [Grounding.nodeTypeOf, hnone, Option.bind_none]
  refine grown_withMorph (h.fresh_basic hfree) (fun n₀ hn₀ => ?_) htype (fun key k hk => ?_) fun key k hk => ?_
  · rw [show g.nodes.get? (Node.new id name qualifier).id = none from hnone] at hn₀
    cases hn₀
  · exact NameBook.byName_register_of_some hk
  · exact (NameBook.byName_register hk).imp_right fun ⟨hid, _⟩ => hid ▸ htype

theorem grown_createMorph {o : NodeId} {n : Node} (hn : g.nodes.get? o = some n) (name : Option String) :
    g.Grown (g.withMorph g.names n.withMorph (MorphId.ofNode n.id n.nextMorph) name) := by
  obtain ⟨rfl, -⟩ := h.node hn
  refine grown_withMorph (h.fresh_morph hn) (fun n₀ hn₀ => ?_) ?_ (fun _ _ hk => hk) fun _ _ hk => Or.inl hk
  · replace hn₀ : g.nodes.get? n.id = some n₀ := hn₀
    rw [hn] at hn₀
    cases hn₀
    exact ⟨rfl, rfl, rfl, List.prefix_append _ _⟩
  · rw [Grounding.nodeTypeOf, show g.nodes.get? n.withMorph.id = some n from hn]
    rfl

/-- The node that a name stands for is there afterwards, and the name still stands for it in every larger graph. -/
theorem resolve_spec (name : String) (qualifier : Option String) :
    g.Grown (g.resolve name qualifier).2 ∧ (∀ e, (g.resolve name qualifier).2.record? e = g.record? e) ∧
      (g.resolve name qualifier).2.names.byName.get? (.ofName name qualifier) = some (g.resolve name qualifier).1 := by
  cases hk : g.names.byName.get? (.ofName name qualifier) with
  | some id =>
    rw [resolve_known hk]
    exact ⟨.refl g, fun _ => rfl, hk⟩
  | none =>
    rw [resolve_unknown hk]
    refine ⟨h.grown_withNode (h.unused_mint _ _) _ _, fun _ => record?_withMorph, ?_⟩
    rw [← NameKey.ofName_collapse] at hk ⊢
    show (g.names.register _ _ _).2.byName.get? _ = _
    rw [NameBook.register_unknown _ hk]
    exact Table.lookup_insert_self

end Framed

end Graph

end Morphology
