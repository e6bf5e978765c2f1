import Mathlib.Combinatorics.Enumerative.DoubleCounting
import Morphology.Graph.Export
import Morphology.Proofs.Export.Keeping
import Morphology.Proofs.Export.Notation
import Morphology.Proofs.Export.Replay

/-! What a graph holds, whatever its ids. Two graphs that keep one ledger have the same content, and the document a
graph is exported as reads its ledger out. -/

namespace Morphology

open Text

structure RelationContent where
  name : String
  target : Option (String × Option String)
  adverb : Option String
  modality : Option String
  subjectQuantifier : Option String
  objectQuantifier : Option String
  deriving DecidableEq

structure AttributeContent where
  name : String
  value : String
  typed : Option Value
  unit : Option String
  adverb : Option String
  modality : Option String
  deriving DecidableEq

/-- The edges in their order; one that is listed without being there is `none`. -/
structure MorphContent where
  name : Option String
  relations : List (Option RelationContent)
  attributes : List (Option AttributeContent)
  deriving DecidableEq

structure NodeContent where
  name : String
  qualifier : Option String
  quantifier : Option String
  role : Role
  nodeType : Option String
  morphs : List (Option MorphContent)
  deriving DecidableEq

namespace Graph

section

variable (g : Graph)

def relationContent (r : Relation) : RelationContent where
  name := r.name
  target := (g.nodes.get? r.target).map fun n => (n.name, n.qualifier)
  adverb := r.modifiers.adverb
  modality := r.modifiers.modality
  subjectQuantifier := r.modifiers.subjectQuantifier
  objectQuantifier := r.modifiers.objectQuantifier

def attributeContent (a : Attribute) : AttributeContent :=
  ⟨a.name, a.value, a.typed, a.modifiers.unit, a.modifiers.adverb, a.modifiers.modality⟩

def morphContent (m : Morph) : MorphContent where
  name := m.name
  relations := m.relations.map fun id => (g.relations.get? id).map g.relationContent
  attributes := m.attributes.map fun id => (g.attributes.get? id).map attributeContent

def nodeContent (n : Node) : NodeContent where
  name := n.name
  qualifier := n.qualifier
  quantifier := n.quantifier
  role := n.role
  nodeType := n.nodeType
  morphs := n.morphs.map fun k => (g.morphs.get? k).map g.morphContent

end

/-- The graphs are the same but for the ids, the versions and the active morphs of their nodes. -/
structure SameContent (g g' : Graph) : Prop where
  nodes : (g'.nodes.values.map g'.nodeContent).Perm (g.nodes.values.map g.nodeContent)
  relations : g'.relations.size = g.relations.size
  attributes : g'.attributes.size = g.attributes.size

variable {schema : Schema} {a : Ledger} {g g' : Graph} {key key' : NameKey} {id id' : NodeId} {c : Account}

namespace Keeps

section

variable (h : g.Keeps schema a)

include h

theorem relation_of_contains {i : Nat} {x : RelationKey} (hid : g.names.byName.get? key = some id) (hc : a key = some c)
    (hx : (c.page i).contains (.relation x) = true) :
    ∃ m q, c.entry (.relation x) = some (.relation x m) ∧ schema.Admits a.Known (.relation x m) ∧
      g.relations.get? (x.ref g.names.idOf id) =
        some ⟨x.ref g.names.idOf id, x.name, id, g.names.idOf x.target, { m with qualifier := q }⟩ ∧
      (q.isSome → x.target.qualifier.isSome) := by
  have hsound := (h.sound.account hc).2
  obtain ⟨e, he⟩ := hsound.cited.mp ⟨i, hx⟩
  obtain ⟨hkey, hadmits⟩ := hsound.keyed he
  have hholds := h.entry hid hc he
  cases e with
  | attr name value typed m => cases hkey
  | relation y m =>
    cases hkey
    obtain ⟨q, hr, hq⟩ := hholds
    exact ⟨m, q, he, hadmits, hr, hq⟩

theorem attr_of_contains {i : Nat} {name : String} (hid : g.names.byName.get? key = some id) (hc : a key = some c)
    (hx : (c.page i).contains (.attr name) = true) :
    ∃ value typed m, c.entry (.attr name) = some (.attr name value typed m) ∧
      g.attributes.get? (.compose id name) = some ⟨.compose id name, name, id, value, typed, m⟩ := by
  have hsound := (h.sound.account hc).2
  obtain ⟨e, he⟩ := hsound.cited.mp ⟨i, hx⟩
  obtain ⟨hkey, -⟩ := hsound.keyed he
  have hholds := h.entry hid hc he
  cases e with
  | relation y m => cases hkey
  | attr name value typed m =>
    cases hkey
    exact ⟨value, typed, m, he, hholds⟩

theorem node_of_known {t : NameKey} (ht : a t = some c) :
    ∃ version, g.nodes.get? (g.names.idOf t) = some (c.node (g.names.idOf t) version) := by
  obtain ⟨c', v, hc', hn⟩ := h.node (h.get?_of_known ⟨c, ht⟩)
  rw [ht] at hc'
  cases hc'
  exact ⟨v, hn⟩

end

/-! ## Content -/

theorem morphContent_eq (h : g.Keeps schema a) (h' : g'.Keeps schema a) (hid : g.names.byName.get? key = some id)
    (hid' : g'.names.byName.get? key = some id') (hc : a key = some c) (i : Nat) :
    g'.morphContent ((c.page i).morph g'.names.idOf id' i) = g.morphContent ((c.page i).morph g.names.idOf id i) := by
  simp only [morphContent, Page.morph, List.map_map, MorphContent.mk.injEq, true_and]
  constructor
  · refine List.map_congr_left fun x hx => ?_
    have hx : (c.page i).contains (.relation x) = true := by simpa [Page.contains] using hx
    obtain ⟨m, q, he, hadmits, hr, -⟩ := h.relation_of_contains hid hc hx
    obtain ⟨m', q', he', -, hr', -⟩ := h'.relation_of_contains hid' hc hx
    rw [he] at he'
    cases he'
    obtain ⟨t, ht⟩ := hadmits.2.2.1
    obtain ⟨v, hn⟩ := h.node_of_known ht
    obtain ⟨v', hn'⟩ := h'.node_of_known ht
    simp only [Function.comp_apply, hr, hr', Option.map_some, relationContent, hn, hn', Account.node]
  · refine List.map_congr_left fun name hx => ?_
    have hx : (c.page i).contains (.attr name) = true := by simpa [Page.contains] using hx
    obtain ⟨value, typed, m, he, hb⟩ := h.attr_of_contains hid hc hx
    obtain ⟨value', typed', m', he', hb'⟩ := h'.attr_of_contains hid' hc hx
    rw [he] at he'
    cases he'
    simp only [Function.comp_apply, hb, hb', Option.map_some, attributeContent]

theorem nodeContent_eq (h : g.Keeps schema a) (h' : g'.Keeps schema a) (hid : g.names.byName.get? key = some id)
    (hid' : g'.names.byName.get? key = some id') (hc : a key = some c) (v v' : Nat) :
    g'.nodeContent (c.node id' v') = g.nodeContent (c.node id v) := by
  simp only [nodeContent, Account.node, List.map_map, NodeContent.mk.injEq, true_and]
  refine List.map_congr_left fun i hi => ?_
  have hi := List.mem_range.mp hi
  simp only [Function.comp_apply, h.morph hid hc hi, h'.morph hid' hc hi, Option.map_some,
    h.morphContent_eq h' hid hid' hc i]

/-- An edge of one graph stands for one edge of the other. -/
def Counterpart (a : Ledger) (g g' : Graph) (ref ref' : EdgeRef) : Prop :=
  ∃ key c x, a key = some c ∧ (∃ e, c.entry x = some e) ∧ ref = x.ref g.names.idOf (g.names.idOf key) ∧
    ref' = x.ref g'.names.idOf (g'.names.idOf key)

theorem counterpart_left (h' : g'.Keeps schema a) {r₁ r₂ r' : EdgeRef}
    (h₁ : Counterpart a g g' r₁ r') (h₂ : Counterpart a g g' r₂ r') : r₁ = r₂ := by
  obtain ⟨k₁, c₁, x₁, hc₁, ⟨e₁, he₁⟩, rfl, rfl⟩ := h₁
  obtain ⟨k₂, c₂, x₂, hc₂, ⟨e₂, he₂⟩, rfl, heq⟩ := h₂
  have hid₁ := h'.get?_of_known ⟨c₁, hc₁⟩
  have hid₂ := h'.get?_of_known ⟨c₂, hc₂⟩
  obtain ⟨hids, rfl⟩ := h'.ref_inj hid₁ hid₂ (h'.fits hc₁ he₁) (h'.fits hc₂ he₂) heq
  rw [h'.key_inj hid₁ (hids ▸ hid₂)]

theorem exists_counterpart (h : g.Keeps schema a) (h' : g'.Keeps schema a) {ref : EdgeRef}
    (href : g.hasEdge ref = true) :
    ∃ ref', g'.hasEdge ref' = true ∧ ref'.isAttribute = ref.isAttribute ∧ Counterpart a g g' ref ref' := by
  obtain ⟨k, id, c, x, hid, hc, ⟨e, he⟩, rfl⟩ := h.edge href
  obtain rfl : id = g.names.idOf k := Option.some.inj (hid.symm.trans (h.get?_of_known ⟨c, hc⟩))
  refine ⟨x.ref g'.names.idOf (g'.names.idOf k), ?_, by cases x <;> rfl, k, c, x, hc, ⟨e, he⟩, rfl, rfl⟩
  obtain ⟨rfl, -⟩ := (h.sound.account hc).2.keyed he
  exact (h'.entry (h'.get?_of_known ⟨c, hc⟩) hc he).hasEdge

/-- Edges of one kind are not more in one graph than in the other. -/
theorem length_edges_le (h : g.Keeps schema a) (h' : g'.Keeps schema a) (kind : Bool) (refs refs' : List EdgeRef)
    (hnodup : refs.Nodup) (hrefs : ∀ r ∈ refs, g.hasEdge r = true ∧ r.isAttribute = kind)
    (hrefs' : ∀ r, g'.hasEdge r = true → r.isAttribute = kind → r ∈ refs') : refs.length ≤ refs'.length := by
  rw [← List.toFinset_card_of_nodup hnodup]
  -- Every edge has a counterpart, and no two edges have one in common.
  refine le_trans (Finset.card_le_card_of_forall_subsingleton (Counterpart a g g') ?_ ?_) refs'.toFinset_card_le
  · intro r hr
    obtain ⟨hedge, hkind⟩ := hrefs r (List.mem_toFinset.mp hr)
    obtain ⟨r', hedge', hkind', hcounter⟩ := h.exists_counterpart h' hedge
    exact ⟨r', List.mem_toFinset.mpr (hrefs' r' hedge' (hkind'.trans hkind)), hcounter⟩
  · rintro r' - r₁ ⟨-, h₁⟩ r₂ ⟨-, h₂⟩
    exact h'.counterpart_left h₁ h₂

theorem relations_size_le (h : g.Keeps schema a) (h' : g'.Keeps schema a) : g.relations.size ≤ g'.relations.size := by
  have hle := h.length_edges_le h' false (g.relations.keys.map .relation) (g'.relations.keys.map .relation)
    ((Table.nodup_keys _).map fun a b hab => by simpa using hab) ?_ ?_
  · simpa [Table.length_keys] using hle
  · intro r hr
    obtain ⟨id, hid, rfl⟩ := List.mem_map.mp hr
    exact ⟨Table.mem_keys.mp hid, rfl⟩
  · intro r hr hkind
    cases r with
    | relation id => exact List.mem_map_of_mem (Table.mem_keys.mpr hr)
    | attr id => cases hkind

theorem attributes_size_le (h : g.Keeps schema a) (h' : g'.Keeps schema a) :
    g.attributes.size ≤ g'.attributes.size := by
  have hle := h.length_edges_le h' true (g.attributes.keys.map .attr) (g'.attributes.keys.map .attr)
    ((Table.nodup_keys _).map fun a b hab => by simpa using hab) ?_ ?_
  · simpa [Table.length_keys] using hle
  · intro r hr
    obtain ⟨id, hid, rfl⟩ := List.mem_map.mp hr
    exact ⟨Table.mem_keys.mp hid, rfl⟩
  · intro r hr hkind
    cases r with
    | relation id => cases hkind
    | attr id => exact List.mem_map_of_mem (Table.mem_keys.mpr hr)

end Keeps

def nodeOf (g : Graph) (c : Account) : Node :=
  c.node (g.names.idOf c.key) (((g.nodes.get? (g.names.idOf c.key)).map (·.version)).getD 0)

/-- The accounts of a ledger in the order of the nodes that stand for them. -/
def accounts (g : Graph) (a : Ledger) : List Account := g.nodes.values.filterMap fun n => a (.ofName n.name n.qualifier)

namespace Keeps

variable (h : g.Keeps schema a)

include h

theorem nodeOf_eq (hc : a key = some c) : g.nodes.get? (g.names.idOf key) = some (g.nodeOf c) := by
  obtain ⟨rfl, -⟩ := h.sound.account hc
  obtain ⟨v, hn⟩ := h.node_of_known hc
  rw [nodeOf, hn]
  rfl

theorem account_of_node {n : Node} (hn : g.nodes.get? id = some n) :
    ∃ c, a (.ofName n.name n.qualifier) = some c ∧ g.nodeOf c = n ∧ id = g.names.idOf c.key := by
  obtain ⟨key, hkey⟩ := h.named (Table.contains_iff.mpr ⟨n, hn⟩)
  obtain ⟨c, v, hc, hn'⟩ := h.node hkey
  obtain ⟨rfl, -⟩ := h.sound.account hc
  obtain rfl : id = g.names.idOf c.key := Option.some.inj (hkey.symm.trans (h.get?_of_known ⟨c, hc⟩))
  obtain rfl : n = c.node (g.names.idOf c.key) v := Option.some.inj (hn.symm.trans hn')
  exact ⟨c, hc, Option.some.inj ((h.nodeOf_eq hc).symm.trans hn), rfl⟩

theorem mem_accounts : c ∈ g.accounts a ↔ a c.key = some c := by
  rw [accounts, List.mem_filterMap]
  constructor
  · rintro ⟨n, -, hc⟩
    rw [(h.sound.account hc).1, hc]
  · intro hc
    exact ⟨g.nodeOf c, Table.mem_values.mpr ⟨_, h.nodeOf_eq hc⟩, hc⟩

theorem values_eq : g.nodes.values = (g.accounts a).map g.nodeOf := by
  rw [accounts, List.map_filterMap]
  refine Eq.trans List.filterMap_some.symm (List.filterMap_congr fun n hn => ?_)
  obtain ⟨id, hn⟩ := Table.mem_values.mp hn
  obtain ⟨c, hc, rfl, -⟩ := h.account_of_node hn
  rw [hc, Option.map_some]

theorem nodup_accounts : ((g.accounts a).map Account.key).Nodup := by
  have hids : g.nodes.values.map (·.id) = g.nodes.keys := by
    rw [Table.values, List.map_map]
    refine List.map_congr_left fun e he => ?_
    obtain ⟨c, -, hn, hid⟩ := h.account_of_node (Table.mem_entries.mp he)
    rw [Function.comp_apply, ← hn, hid]
    rfl
  have hnodup : (((g.accounts a).map Account.key).map g.names.idOf).Nodup := by
    rw [List.map_map]
    have hkeys := Table.nodup_keys g.nodes
    rw [← hids, h.values_eq, List.map_map] at hkeys
    exact hkeys
  exact hnodup.of_map

end Keeps

theorem Keeps.sameContent (h : g.Keeps schema a) (h' : g'.Keeps schema a) : g.SameContent g' := by
  refine ⟨?_, le_antisymm (h'.relations_size_le h) (h.relations_size_le h'),
    le_antisymm (h'.attributes_size_le h) (h.attributes_size_le h')⟩
  have hperm : (g'.accounts a).Perm (g.accounts a) :=
    (List.perm_ext_iff_of_nodup h'.nodup_accounts.of_map h.nodup_accounts.of_map).mpr fun c =>
      h'.mem_accounts.trans h.mem_accounts.symm
  have hcontent :
      (g'.accounts a).map (g'.nodeContent ∘ g'.nodeOf) = (g'.accounts a).map (g.nodeContent ∘ g.nodeOf) := by
    refine List.map_congr_left fun c hc => ?_
    have hc := h'.mem_accounts.mp hc
    exact h.nodeContent_eq h' (h.get?_of_known ⟨c, hc⟩) (h'.get?_of_known ⟨c, hc⟩) hc _ _
  rw [h'.values_eq, h.values_eq, List.map_map, List.map_map, hcontent]
  exact hperm.map _

/-! ## The document of a graph -/

namespace Keeps

variable (h : g.Keeps schema a) (hid : g.names.byName.get? key = some id) (hc : a key = some c)

include h

theorem relationStatement_eq {x : RelationKey} {m : RelationModifiers} {q : Option String} {k : RelationId}
    {o : NodeId} (hx : a.Known x.target) (hq : q.isSome → x.target.qualifier.isSome) :
    g.relationStatement ⟨k, x.name, o, g.names.idOf x.target, { m with qualifier := q }⟩ =
      a.statement (.relation x m) := by
  obtain ⟨t, ht⟩ := hx
  have hkey : NameKey.ofName t.name t.qualifier = x.target := (h.sound.account ht).1
  have hor : t.qualifier.or q = t.qualifier := by
    cases htq : t.qualifier with
    | some q' => rfl
    | none =>
      rw [← hkey, htq] at hq
      cases q with
      | none => rfl
      | some q' => exact absurd (hq rfl) (by simp [NameKey.ofName])
  rw [relationStatement, h.nodeOf_eq ht]
  simp only [nodeOf, Account.node, Ledger.statement, ht, Option.map_some, Option.bind_some, Option.getD_some, hor]

include hc

theorem fenceLabel_eq {i : Nat} (hi : i < c.size) (v place : Nat) :
    fenceLabel (c.node id v) ((c.page i).morph g.names.idOf id i) place = (c.page i).name := by
  have hsound := (h.sound.account hc).2
  rcases Nat.eq_zero_or_pos i with rfl | hpos
  · simp only [fenceLabel, Page.morph, hsound.basic, Account.basicMorph_node hsound.size, if_true]
  · obtain ⟨l, hl, -⟩ := hsound.named hpos hi
    simp only [fenceLabel, Page.morph, hl]

include hid

theorem statementsOf_eq (i : Nat) : g.statementsOf ((c.page i).morph g.names.idOf id i) =
    ((c.page i).keys.filterMap c.entry).map a.statement := by
  simp only [statementsOf, Page.morph, Page.keys, List.filterMap_append, List.map_append, List.filterMap_map,
    List.map_filterMap]
  congr 1
  · refine List.filterMap_congr fun x hx => ?_
    have hx : (c.page i).contains (.relation x) = true := by simpa [Page.contains] using hx
    obtain ⟨m, q, he, hadmits, hr, hq⟩ := h.relation_of_contains hid hc hx
    simp only [Function.comp_apply, hr, he, Option.map_some, h.relationStatement_eq hadmits.2.2.1 hq]
  · refine List.filterMap_congr fun name hx => ?_
    have hx : (c.page i).contains (.attr name) = true := by simpa [Page.contains] using hx
    obtain ⟨value, typed, m, he, hb⟩ := h.attr_of_contains hid hc hx
    simp only [Function.comp_apply, hb, he, Option.map_some, attributeStatement, Ledger.statement]

omit hid in
/-- The fence of the first morph is left out just where the saying of the first page is. -/
theorem hidden_eq (i v : Nat) :
    ((c.node id v).basicMorph == ((c.page i).morph g.names.idOf id i).id &&
      ((c.page i).morph g.names.idOf id i).isEmpty) = (i == 0 && (c.page i).isEmpty) := by
  have hsize := (h.sound.account hc).2.size
  have hfirst : ((c.node id v).basicMorph == ((c.page i).morph g.names.idOf id i).id) = (i == 0) := by
    rw [Account.basicMorph_node hsize, Bool.eq_iff_iff, beq_iff_eq, beq_iff_eq]
    constructor
    · intro heq
      exact (MorphId.ofNode_inj heq).2.symm
    · rintro rfl
      rfl
  rw [hfirst]
  simp [Page.morph, Morph.isEmpty, Page.isEmpty]

theorem passage_nodeBlock (v : Nat) : (g.nodeBlock (c.node id v)).passage = a.passage c := by
  have hzip (n : Nat) (f : Nat → Morph) : ((List.range n).map f).zipIdx = (List.range n).map fun i => (f i, i) :=
    List.ext_getElem (by simp) (by simp)
  have hfences (l : List (Morph × Nat)) :
      Block.fences ⟨(c.node id v).name, (c.node id v).qualifier, 0,
        l.map fun m => .fence (g.morphFence (c.node id v) m.1 m.2), []⟩ =
          l.map fun m => g.morphFence (c.node id v) m.1 m.2 := by
    simp [Block.fences, List.filterMap_map]
  have hsaying (label : Option String) (ss : List Statement) :
      Fence.saying ⟨label, 0, ss.map (.statement 0), true⟩ = (label, ss) := by
    simp [Fence.saying, Fence.statements, List.filterMap_map, Function.comp_def]
  rw [nodeBlock, Block.passage, Ledger.passage, Passage.mk.injEq]
  refine ⟨rfl, rfl, ?_⟩
  rw [hfences, h.morphsOf hid hc, hzip, List.filter_map, List.map_map, List.map_map, Ledger.sayings]
  have hshown : ((fun m : Morph × Nat => !((c.node id v).basicMorph == m.1.id && m.1.isEmpty)) ∘
      fun i => ((c.page i).morph g.names.idOf id i, i)) = fun i => !(i == 0 && (c.page i).isEmpty) :=
    funext fun i => congrArg (! ·) (h.hidden_eq hc i v)
  rw [hshown]
  refine List.map_congr_left fun i hi => ?_
  have hi : i < c.size := List.mem_range.mp (List.mem_of_mem_filter hi)
  simp only [Function.comp_apply, morphFence, hsaying, h.statementsOf_eq hid hc, h.fenceLabel_eq hc hi, Ledger.saying]

end Keeps

theorem nodeBlock_segments (g : Graph) (n : Node) : ∀ s ∈ (g.nodeBlock n).segments, s.IsNotation ∧ s.IsClosed := by
  intro s hs
  obtain ⟨m, -, rfl⟩ := List.mem_map.mp hs
  refine ⟨fun l hl => ?_, rfl⟩
  obtain ⟨s, -, rfl⟩ := List.mem_map.mp hl
  exact ⟨s, rfl⟩

theorem Keeps.passages_toDocument (h : g.Keeps schema a) :
    g.toDocument.blocks.map Block.passage = (g.accounts a).map a.passage := by
  rw [toDocument, h.values_eq, List.map_map, List.map_map]
  refine List.map_congr_left fun c hc => ?_
  have hc := h.mem_accounts.mp hc
  exact h.passage_nodeBlock (h.get?_of_known ⟨c, hc⟩) hc _

end Graph

end Morphology
