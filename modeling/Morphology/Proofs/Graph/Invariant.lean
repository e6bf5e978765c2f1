import Morphology.Graph.Store
import Morphology.Proofs.Morph
import Morphology.Proofs.Naming

/-! What holds of a graph between two changes. `Graph.Coherent` ties the tables, the indexes and the name book to
each other; it holds in the middle of a change as well. `Graph.Sound` says besides that every edge is referred to,
which a change may suspend for one edge at a time. -/

namespace Morphology

/-- What holds of a node record by itself. -/
structure Node.Sound (node : Node) : Prop where
  plain : node.id.IsPlain
  nodup : node.morphs.Nodup
  basic : node.morphs.head? = some (MorphId.ofNode node.id 0)
  /-- The counter is ahead of every morph made so far. -/
  numbered : ∀ k ∈ node.morphs, ∃ i < node.nextMorph, k = MorphId.ofNode node.id i
  active : ∀ k, node.active = some k → k ∈ node.morphs

def Relation.IsComposed (r : Relation) : Prop :=
  r.id = RelationId.compose r.source r.name r.target

def Attribute.IsComposed (a : Attribute) : Prop :=
  a.id = AttributeId.compose a.owner a.name

namespace Graph

def Refers (g : Graph) (k : MorphId) (e : EdgeRef) : Prop :=
  ∃ m, g.morphs.get? k = some m ∧ m.contains e = true

structure Coherent (g : Graph) : Prop where
  node : ∀ {k n}, g.nodes.get? k = some n → n.id = k ∧ n.Sound
  morph : ∀ {k m}, g.morphs.get? k = some m → m.id = k ∧ m.Sound
  /-- Every morph is in the list of its owner, and every entry of a list is there. -/
  listed : ∀ {k m}, g.morphs.get? k = some m → ∃ n, g.nodes.get? m.owner = some n ∧ k ∈ n.morphs
  present : ∀ {o n k}, g.nodes.get? o = some n → k ∈ n.morphs → ∃ m, g.morphs.get? k = some m ∧ m.owner = o
  /-- No two morphs of a node have one name in two spellings. -/
  distinct : ∀ {k l m m' a b}, g.morphs.get? k = some m → g.morphs.get? l = some m' → m.owner = m'.owner →
    m.name = some a → m'.name = some b → Text.fold a = Text.fold b → k = l
  /-- A morph refers to edges of its own node, and only to edges that are there. -/
  owned : ∀ {k m e}, g.morphs.get? k = some m → m.contains e = true → g.edgeOwner e = some m.owner
  referrer : ∀ {e k}, k ∈ g.referrers.items e ↔ g.Refers k e
  relation : ∀ {k r}, g.relations.get? k = some r →
    r.id = k ∧ r.IsComposed ∧ g.nodes.contains r.source = true ∧ g.nodes.contains r.target = true
  attr : ∀ {k a}, g.attributes.get? k = some a →
    a.id = k ∧ a.IsComposed ∧ g.nodes.contains a.owner = true
  outgoing : ∀ {n k}, k ∈ g.outgoing.items n ↔ ∃ r, g.relations.get? k = some r ∧ r.source = n
  incoming : ∀ {n k}, k ∈ g.incoming.items n ↔ ∃ r, g.relations.get? k = some r ∧ r.target = n
  relationType : ∀ {t k}, k ∈ g.relationsByType.items t ↔
    ∃ r, g.relations.get? k = some r ∧ Text.fold r.name = t
  attributeType : ∀ {t k}, k ∈ g.attributesByType.items t ↔
    ∃ a, g.attributes.get? k = some a ∧ Text.fold a.name = t
  /-- The ids in use are those of the nodes, and a name stands for a node that has it. -/
  taken : ∀ {k}, g.names.taken.contains k = true ↔ g.nodes.contains k = true
  named : ∀ {key k}, g.names.byName.get? key = some k →
    ∃ n, g.nodes.get? k = some n ∧ NameKey.ofName n.name n.qualifier = key
  space : g.names.space.IsPlain

structure Sound (g : Graph) : Prop extends g.Coherent where
  covered : ∀ e, g.hasEdge e = true → ∃ k, g.Refers k e

variable {g : Graph}

theorem coherent_empty {space : Namespace} (h : space.IsPlain) : (empty space).Coherent where
  node h := by cases h
  morph h := by cases h
  listed h := by cases h
  present h := by cases h
  distinct h := by cases h
  owned h := by cases h
  referrer := ⟨fun h => absurd h Index.not_mem_items_empty, fun ⟨_, h, _⟩ => by cases h⟩
  relation h := by cases h
  attr h := by cases h
  outgoing := ⟨fun h => absurd h Index.not_mem_items_empty, fun ⟨_, h, _⟩ => by cases h⟩
  incoming := ⟨fun h => absurd h Index.not_mem_items_empty, fun ⟨_, h, _⟩ => by cases h⟩
  relationType := ⟨fun h => absurd h Index.not_mem_items_empty, fun ⟨_, h, _⟩ => by cases h⟩
  attributeType := ⟨fun h => absurd h Index.not_mem_items_empty, fun ⟨_, h, _⟩ => by cases h⟩
  taken := Iff.rfl
  named h := by cases h
  space := h

theorem sound_empty {space : Namespace} (h : space.IsPlain) : (empty space).Sound where
  toCoherent := coherent_empty h
  covered e he := by cases e <;> cases he

theorem hasEdge_iff {e : EdgeRef} : g.hasEdge e = true ↔ ∃ o, g.edgeOwner e = some o := by
  cases e <;> simp [hasEdge, edgeOwner, Table.contains_iff]

theorem hasEdge_of_owner {e : EdgeRef} {o : NodeId} (h : g.edgeOwner e = some o) : g.hasEdge e = true :=
  hasEdge_iff.mpr ⟨o, h⟩

namespace Coherent

variable (h : g.Coherent)

include h

theorem isPlain {k : NodeId} (hk : g.nodes.contains k = true) : k.IsPlain := by
  obtain ⟨n, hn⟩ := Table.contains_iff.mp hk
  obtain ⟨hid, hs⟩ := h.node hn
  exact hid ▸ hs.plain

theorem colons_eq {k l : NodeId} (hk : g.nodes.contains k = true) (hl : g.nodes.contains l = true) :
    k.colons = l.colons := by
  rw [(h.isPlain hk).colons, (h.isPlain hl).colons]

theorem refers_hasEdge {k : MorphId} {e : EdgeRef} (hr : g.Refers k e) : g.hasEdge e = true := by
  obtain ⟨m, hm, he⟩ := hr
  exact hasEdge_of_owner (h.owned hm he)

theorem relation_eq {k : RelationId} {r r' : Relation} (hr : g.relations.get? k = some r)
    (hid : r'.id = k) (hc : r'.IsComposed) (hs : g.nodes.contains r'.source = true)
    (ht : g.nodes.contains r'.target = true) :
    r.source = r'.source ∧ r.name = r'.name ∧ r.target = r'.target := by
  obtain ⟨hk, hc', hs', ht'⟩ := h.relation hr
  refine RelationId.compose_inj (h.colons_eq hs' hs) (h.colons_eq ht' ht) ?_
  rw [← hc', ← hc, hk, hid]

theorem attr_eq {k : AttributeId} {a a' : Attribute} (ha : g.attributes.get? k = some a)
    (hid : a'.id = k) (hc : a'.IsComposed) (ho : g.nodes.contains a'.owner = true) :
    a.owner = a'.owner ∧ a.name = a'.name := by
  obtain ⟨hk, hc', ho'⟩ := h.attr ha
  refine AttributeId.compose_inj (h.colons_eq ho' ho) ?_
  rw [← hc', ← hc, hk, hid]

end Coherent

end Graph

end Morphology
