import Morphology.Proofs.Graph.Invariant

/-! The frame of a graph: its nodes with the lists of their morphs, and the names they are found under.
`Graph.Framed` says that these agree with each other, whatever the morphs refer to and whatever the ids are made of.
Most changes leave the frame as it is; the others make a morph or a node, or take one away. -/

namespace Morphology

/-- The basic morph is first, and the counter is ahead of every morph made so far. -/
structure Node.Numbered (n : Node) : Prop where
  basic : n.morphs.head? = some (MorphId.ofNode n.id 0)
  numbered : ∀ k ∈ n.morphs, ∃ i < n.nextMorph, k = MorphId.ofNode n.id i

/-- What no change of a node record touches but the making and unmaking of its morphs. -/
def Node.frame (n : Node) : Node :=
  { n with quantifier := none, role := .individual, nodeType := none, active := none, version := 0 }

def Node.withMorph (n : Node) : Node :=
  { n with nextMorph := n.nextMorph + 1, morphs := n.morphs ++ [MorphId.ofNode n.id n.nextMorph] }

/-- The node without a morph, in its list and in view. -/
def Node.withoutMorph (n : Node) (k : MorphId) : Node :=
  { n with
    morphs := n.morphs.filter (· ≠ k)
    active := if n.active = some k then none else n.active }

namespace Node

variable {n n' : Node} {k l : MorphId}

theorem frame_inj (h : n.frame = n'.frame) : n.id = n'.id ∧ n.name = n'.name ∧ n.qualifier = n'.qualifier ∧
    n.morphs = n'.morphs ∧ n.nextMorph = n'.nextMorph := by
  simpa [frame] using h

theorem mem_withoutMorph : l ∈ (n.withoutMorph k).morphs ↔ l ∈ n.morphs ∧ l ≠ k := by
  simp [withoutMorph]

theorem Sound.toNumbered (h : n.Sound) : n.Numbered := ⟨h.basic, h.numbered⟩

theorem numbered_new (id : NodeId) (name : String) (qualifier : Option String) :
    (new id name qualifier).Numbered where
  basic := rfl
  numbered _ hk := ⟨0, Nat.zero_lt_one, List.mem_singleton.mp hk⟩

namespace Numbered

variable (h : n.Numbered)

include h

theorem of_frame (hf : n.frame = n'.frame) : n'.Numbered := by
  obtain ⟨hid, -, -, hmorphs, hnext⟩ := frame_inj hf
  refine ⟨by rw [← hmorphs, ← hid, h.basic], ?_⟩
  rw [← hmorphs, ← hnext, ← hid]
  exact h.numbered

theorem withMorph : n.withMorph.Numbered where
  basic := by
    show (n.morphs ++ _).head? = _
    rw [List.head?_append, h.basic]
    rfl
  numbered k hk := by
    rcases List.mem_append.mp hk with hk | hk
    · obtain ⟨i, hi, hk⟩ := h.numbered k hk
      exact ⟨i, Nat.lt_succ_of_lt hi, hk⟩
    · exact ⟨n.nextMorph, Nat.lt_succ_self _, List.mem_singleton.mp hk⟩

theorem withoutMorph (hk : k ≠ MorphId.ofNode n.id 0) : (n.withoutMorph k).Numbered where
  basic := by
    obtain ⟨rest, hrest⟩ : ∃ rest, n.morphs = MorphId.ofNode n.id 0 :: rest := by
      simpa using List.head?_eq_some_iff.mp h.basic
    show (n.morphs.filter _).head? = _
    rw [hrest, List.filter_cons_of_pos (by simpa using hk.symm)]
    rfl
  numbered l hl := h.numbered l (List.mem_of_mem_filter hl)

theorem basicMorph_eq : n.basicMorph = MorphId.ofNode n.id 0 := by
  rw [basicMorph, List.headD_eq_head?_getD, h.basic, Option.getD_some]

/-- The basic morph is in the list, so that the number of a new one is not that of the basic one. -/
theorem fresh_ne_basic : MorphId.ofNode n.id n.nextMorph ≠ MorphId.ofNode n.id 0 := by
  intro hbasic
  obtain ⟨i, hi, hzero⟩ := h.numbered _ (List.mem_of_mem_head? h.basic)
  obtain ⟨-, rfl⟩ := MorphId.ofNode_inj hzero
  obtain ⟨-, hnext⟩ := MorphId.ofNode_inj hbasic
  omega

end Numbered

end Node

def Morph.bare (m : Morph) : Morph := { m with relations := [], attributes := [] }

namespace Morph

variable {m m' : Morph} {e : EdgeRef}

theorem bare_inj (h : m.bare = m'.bare) : m.id = m'.id ∧ m.name = m'.name ∧ m.owner = m'.owner := by
  simpa [bare] using h

theorem bare_insert (m : Morph) (e : EdgeRef) : (m.insert e).bare = m.bare := by
  unfold insert
  split
  · rfl
  · cases e <;> rfl

theorem bare_keep (m : Morph) (p : EdgeRef → Bool) : (m.keep p).bare = m.bare := rfl

end Morph

namespace Graph

variable {g g' : Graph} {o id : NodeId} {k l : MorphId} {n : Node} {m : Morph} {book : NameBook}
  {name : Option String}

theorem nodes_modifyNode {k : NodeId} {f : Node → Node} :
    (g.modifyNode id f).nodes.get? k = if k = id then (g.nodes.get? k).map f else g.nodes.get? k :=
  Table.lookup_modify

/-- The graph with one more morph, empty, and with the record `n` for the node that it belongs to. -/
def withMorph (g : Graph) (book : NameBook) (n : Node) (l : MorphId) (name : Option String) : Graph :=
  { g with
    names := book
    morphs := g.morphs.insert l (Morph.new l n.id name)
    nodes := g.nodes.insert n.id n }

theorem nodes_withMorph {k : NodeId} :
    (g.withMorph book n l name).nodes.get? k = if k = n.id then some n else g.nodes.get? k :=
  Table.lookup_insert

theorem morphs_withMorph :
    (g.withMorph book n l name).morphs.get? k = if k = l then some (Morph.new l n.id name) else g.morphs.get? k :=
  Table.lookup_insert

theorem contains_withMorph :
    (g.withMorph book n l name).nodes.contains o = true ↔ o = n.id ∨ g.nodes.contains o = true :=
  Table.contains_insert

theorem nodes_withMorph_self : (g.withMorph book n l name).nodes.get? n.id = some n := Table.lookup_insert_self

theorem morphs_withMorph_self : (g.withMorph book n l name).morphs.get? l = some (Morph.new l n.id name) :=
  Table.lookup_insert_self

theorem createMorph_eq (hn : g.nodes.get? o = some n) (hid : n.id = o) :
    g.createMorph o name = .ok (MorphId.ofNode n.id n.nextMorph,
      g.withMorph g.names n.withMorph (MorphId.ofNode n.id n.nextMorph) name) := by
  subst hid
  simp only [Graph.createMorph, hn]
  rfl

/-- The graph with one more node, under a name that may stand for another one already. -/
def withNode (g : Graph) (id : NodeId) (name : String) (qualifier : Option String) : Graph :=
  g.withMorph (g.names.register id name qualifier).2 (Node.new id name qualifier) (MorphId.ofNode id 0) none

section Names

variable {name : String} {qualifier : Option String}

theorem resolve_known (h : g.names.byName.get? (.ofName name qualifier) = some id) :
    g.resolve name qualifier = (id, g) := by
  rw [← NameKey.ofName_collapse] at h
  simp only [resolve, NameBook.lookup, h]

theorem resolve_unknown (h : g.names.byName.get? (.ofName name qualifier) = none) :
    g.resolve name qualifier =
      let id := g.names.mint (Text.collapse name) (Text.collapse? qualifier)
      (id, g.withNode id (Text.collapse name) (Text.collapse? qualifier)) := by
  rw [← NameKey.ofName_collapse] at h
  simp only [resolve, NameBook.lookup, h]
  rfl

theorem importNode_unknown (h : g.nodes.contains id = false) :
    g.importNode id name qualifier = (id, g.withNode id (Text.collapse name) (Text.collapse? qualifier)) := by
  simp only [importNode, h]
  rfl

theorem resolve_induction {motive : Graph → Prop} (hknown : motive g)
    (hnew : ∀ name qualifier, motive (g.withNode (g.names.mint name qualifier) name qualifier)) (name : String)
    (qualifier : Option String) : motive (g.resolve name qualifier).2 := by
  cases hk : g.names.byName.get? (.ofName name qualifier) with
  | some id =>
    rw [resolve_known hk]
    exact hknown
  | none =>
    rw [resolve_unknown hk]
    exact hnew _ _

theorem importNode_induction {motive : Graph → Prop} (hknown : motive g)
    (hnew : ∀ name qualifier, g.nodes.contains id = false → motive (g.withNode id name qualifier)) (name : String)
    (qualifier : Option String) : motive (g.importNode id name qualifier).2 := by
  cases hc : g.nodes.contains id with
  | true =>
    rw [importNode, if_pos hc]
    exact hknown
  | false =>
    rw [importNode_unknown hc]
    exact hnew _ _ hc

end Names

def withoutMorph (g : Graph) (k : MorphId) (m : Morph) : Graph :=
  { g with
    morphs := g.morphs.erase k
    nodes := g.nodes.modify m.owner (·.withoutMorph k) }

theorem nodes_withoutMorph :
    (g.withoutMorph k m).nodes.get? o =
      if o = m.owner then (g.nodes.get? o).map (·.withoutMorph k) else g.nodes.get? o :=
  Table.lookup_modify

theorem contains_withoutMorph : (g.withoutMorph k m).nodes.contains o = g.nodes.contains o := Table.contains_modify

theorem morphs_withoutMorph : (g.withoutMorph k m).morphs.get? l = if l = k then none else g.morphs.get? l :=
  Table.lookup_erase

theorem removeMorph_eq (hm : g.morphs.get? k = some m) : g.removeMorph k = .ok (m, g.withoutMorph k m) := by
  simp only [Graph.removeMorph, hm]
  rfl

def withoutNode (g : Graph) (o : NodeId) (n : Node) : Graph :=
  { g with
    nodes := g.nodes.erase o
    morphs := n.morphs.foldl (·.erase ·) g.morphs
    names := g.names.unregister o n.name n.qualifier }

theorem lookup_eraseAll {ms : Table MorphId Morph} {ids : List MorphId} :
    (ids.foldl (·.erase ·) ms).get? k = if k ∈ ids then none else ms.get? k := by
  induction ids generalizing ms with
  | nil => simp
  | cons id ids ih =>
    rw [List.foldl_cons, ih, Table.lookup_erase]
    by_cases hk : k = id <;> simp [hk]

theorem nodes_withoutNode {k : NodeId} :
    (g.withoutNode o n).nodes.get? k = if k = o then none else g.nodes.get? k :=
  Table.lookup_erase

theorem contains_withoutNode {k : NodeId} :
    (g.withoutNode o n).nodes.contains k = true ↔ k ≠ o ∧ g.nodes.contains k = true :=
  Table.contains_erase

theorem morphs_withoutNode : (g.withoutNode o n).morphs.get? k = if k ∈ n.morphs then none else g.morphs.get? k :=
  lookup_eraseAll

theorem removeNode_eq (hn : g.nodes.get? o = some n) : g.removeNode o = .ok (n, g.withoutNode o n) := by
  simp only [Graph.removeNode, hn]
  rfl

theorem removeNode_eq_ok {g' : Graph} (h : g.removeNode o = .ok (n, g')) :
    g.nodes.get? o = some n ∧ g' = g.withoutNode o n := by
  cases hn : g.nodes.get? o with
  | none => simp [Graph.removeNode, hn] at h
  | some n₀ =>
    rw [removeNode_eq hn] at h
    cases h
    exact ⟨rfl, rfl⟩

structure Framed (g : Graph) : Prop where
  node : ∀ {k n}, g.nodes.get? k = some n → n.id = k ∧ n.Numbered
  morph : ∀ {k m}, g.morphs.get? k = some m → m.id = k
  /-- Every morph is in the list of its owner, and every entry of a list is there. -/
  listed : ∀ {k m}, g.morphs.get? k = some m → ∃ n, g.nodes.get? m.owner = some n ∧ k ∈ n.morphs
  present : ∀ {o n k}, g.nodes.get? o = some n → k ∈ n.morphs → ∃ m, g.morphs.get? k = some m ∧ m.owner = o
  /-- The ids in use are those of the nodes, and a name stands for a node that has it. -/
  taken : ∀ {k}, g.names.taken.contains k = true ↔ g.nodes.contains k = true
  named : ∀ {key k}, g.names.byName.get? key = some k →
    ∃ n, g.nodes.get? k = some n ∧ NameKey.ofName n.name n.qualifier = key

structure SameFrame (g g' : Graph) : Prop where
  nodes : ∀ k, (g'.nodes.get? k).map Node.frame = (g.nodes.get? k).map Node.frame
  morphs : ∀ k, (g'.morphs.get? k).map Morph.bare = (g.morphs.get? k).map Morph.bare
  names : g'.names = g.names

theorem Coherent.framed (h : g.Coherent) : g.Framed where
  node hn := (h.node hn).imp id Node.Sound.toNumbered
  morph hm := (h.morph hm).1
  listed := h.listed
  present := h.present
  taken := h.taken
  named := h.named

theorem framed_empty (space : Namespace) : (empty space).Framed where
  node h := by cases h
  morph h := by cases h
  listed h := by cases h
  present h := by cases h
  taken := Iff.rfl
  named h := by cases h

namespace SameFrame

variable {g'' : Graph}

theorem of_eq (hn : g'.nodes = g.nodes) (hm : g'.morphs = g.morphs) (hb : g'.names = g.names) : g.SameFrame g' :=
  ⟨fun k => by rw [hn], fun k => by rw [hm], hb⟩

theorem refl (g : Graph) : g.SameFrame g := of_eq rfl rfl rfl

theorem modifyNode (g : Graph) (id : NodeId) {f : Node → Node} (hf : ∀ n, (f n).frame = n.frame) :
    g.SameFrame (g.modifyNode id f) := by
  refine ⟨fun k => ?_, fun _ => rfl, rfl⟩
  rw [nodes_modifyNode]
  split
  · rw [Option.map_map]
    exact congrArg (Option.map · _) (funext hf)
  · rfl

variable (h : g.SameFrame g')

include h

theorem trans (h' : g'.SameFrame g'') : g.SameFrame g'' where
  nodes k := (h'.nodes k).trans (h.nodes k)
  morphs k := (h'.morphs k).trans (h.morphs k)
  names := h'.names.trans h.names

theorem symm : g'.SameFrame g := ⟨fun k => (h.nodes k).symm, fun k => (h.morphs k).symm, h.names.symm⟩

theorem node (hn : g.nodes.get? o = some n) : ∃ n', g'.nodes.get? o = some n' ∧ n'.frame = n.frame := by
  have ho := h.nodes o
  rw [hn] at ho
  exact Option.map_eq_some_iff.mp ho

theorem morph (hm : g.morphs.get? k = some m) : ∃ m', g'.morphs.get? k = some m' ∧ m'.bare = m.bare := by
  have hk := h.morphs k
  rw [hm] at hk
  exact Option.map_eq_some_iff.mp hk

theorem contains_iff : g'.nodes.contains o = true ↔ g.nodes.contains o = true := by
  simp only [Table.contains_iff]
  exact ⟨fun ⟨_, hn⟩ => (h.symm.node hn).imp fun _ => And.left, fun ⟨_, hn⟩ => (h.node hn).imp fun _ => And.left⟩

theorem framed (hg : g.Framed) : g'.Framed where
  node {k n} hn := by
    obtain ⟨n₀, hn₀, hf⟩ := h.symm.node hn
    obtain ⟨hid, hnum⟩ := hg.node hn₀
    exact ⟨(Node.frame_inj hf).1.symm.trans hid, hnum.of_frame hf⟩
  morph {k m} hm := by
    obtain ⟨m₀, hm₀, hb⟩ := h.symm.morph hm
    exact (Morph.bare_inj hb).1.symm.trans (hg.morph hm₀)
  listed {k m} hm := by
    obtain ⟨m₀, hm₀, hb⟩ := h.symm.morph hm
    obtain ⟨n₀, hn₀, hk⟩ := hg.listed hm₀
    obtain ⟨n, hn, hf⟩ := h.node hn₀
    obtain ⟨-, -, -, hmorphs, -⟩ := Node.frame_inj hf
    exact ⟨n, (Morph.bare_inj hb).2.2 ▸ hn, hmorphs ▸ hk⟩
  present {o n k} hn hk := by
    obtain ⟨n₀, hn₀, hf⟩ := h.symm.node hn
    obtain ⟨-, -, -, hmorphs, -⟩ := Node.frame_inj hf
    obtain ⟨m₀, hm₀, ho⟩ := hg.present hn₀ (hmorphs ▸ hk)
    obtain ⟨m, hm, hb⟩ := h.morph hm₀
    exact ⟨m, hm, (Morph.bare_inj hb).2.2.trans ho⟩
  taken {k} := by rw [h.names, h.contains_iff, hg.taken]
  named {key k} hk := by
    rw [h.names] at hk
    obtain ⟨n₀, hn₀, hkey⟩ := hg.named hk
    obtain ⟨n, hn, hf⟩ := h.node hn₀
    obtain ⟨-, hname, hqualifier, -⟩ := Node.frame_inj hf
    exact ⟨n, hn, by rw [hname, hqualifier, hkey]⟩

end SameFrame

namespace Framed

variable (h : g.Framed)

include h

theorem mem_morphs_iff (hn : g.nodes.get? o = some n) (hm : g.morphs.get? k = some m) :
    k ∈ n.morphs ↔ m.owner = o := by
  constructor
  · intro hk
    obtain ⟨m', hm', ho⟩ := h.present hn hk
    rw [hm] at hm'
    cases hm'
    exact ho
  · intro ho
    obtain ⟨n', hn', hk⟩ := h.listed hm
    rw [ho, hn] at hn'
    cases hn'
    exact hk

theorem mem_morphsOf : m ∈ g.morphsOf n ↔ m.id ∈ n.morphs ∧ g.morphs.get? m.id = some m := by
  rw [morphsOf, List.mem_filterMap]
  constructor
  · rintro ⟨k, hk, hm⟩
    obtain rfl := h.morph hm
    exact ⟨hk, hm⟩
  · exact fun ⟨hk, hm⟩ => ⟨m.id, hk, hm⟩

theorem mem_morphsOf_iff (hn : g.nodes.get? o = some n) :
    m ∈ g.morphsOf n ↔ g.morphs.get? m.id = some m ∧ m.owner = o := by
  rw [h.mem_morphsOf, and_comm]
  exact and_congr_right fun hm => h.mem_morphs_iff hn hm

theorem owner_of_numbered {i : Nat} (hm : g.morphs.get? (MorphId.ofNode o i) = some m) :
    m.owner = o ∧ ∃ n, g.nodes.get? o = some n ∧ i < n.nextMorph := by
  obtain ⟨n, hn, hk⟩ := h.listed hm
  obtain ⟨hid, hnum⟩ := h.node hn
  obtain ⟨j, hj, hk⟩ := hnum.numbered _ hk
  obtain ⟨hoo, rfl⟩ := MorphId.ofNode_inj hk
  have ho : m.owner = o := by rw [hoo, hid]
  exact ⟨ho, n, ho ▸ hn, hj⟩

theorem fresh_morph (hn : g.nodes.get? o = some n) : g.morphs.get? (MorphId.ofNode n.id n.nextMorph) = none := by
  cases hm : g.morphs.get? (MorphId.ofNode n.id n.nextMorph) with
  | none => rfl
  | some m =>
    obtain ⟨-, n', hn', hlt⟩ := h.owner_of_numbered hm
    rw [(h.node hn).1, hn] at hn'
    cases hn'
    omega

theorem fresh_basic (hfree : g.nodes.contains id = false) : g.morphs.get? (MorphId.ofNode id 0) = none := by
  cases hm : g.morphs.get? (MorphId.ofNode id 0) with
  | none => rfl
  | some m =>
    obtain ⟨-, n, hn, -⟩ := h.owner_of_numbered hm
    rw [Table.contains_eq_false.mp hfree] at hn
    cases hn

/-- A morph that is not there yet can be added to the list of its node, and the node along with it. -/
theorem withMorph (hfresh : g.morphs.get? l = none) (hnum : n.Numbered)
    (hlist : ∀ k, k ∈ n.morphs ↔ k = l ∨ ∃ n₀, g.nodes.get? n.id = some n₀ ∧ k ∈ n₀.morphs)
    (hkept : ∀ n₀, g.nodes.get? n.id = some n₀ → n₀.name = n.name ∧ n₀.qualifier = n.qualifier)
    (htaken : ∀ k, book.taken.contains k = true ↔ k = n.id ∨ g.names.taken.contains k = true)
    (hnamed : ∀ key k, book.byName.get? key = some k →
      g.names.byName.get? key = some k ∨ (k = n.id ∧ NameKey.ofName n.name n.qualifier = key)) :
    (g.withMorph book n l name).Framed where
  node {k n'} hn' := by
    rw [nodes_withMorph] at hn'
    split at hn'
    · rename_i hk
      cases hn'
      exact ⟨hk.symm, hnum⟩
    · exact h.node hn'
  morph {k m} hm := by
    rw [morphs_withMorph] at hm
    split at hm
    · rename_i hk
      cases hm
      exact hk.symm
    · exact h.morph hm
  listed {k m} hm := by
    rw [morphs_withMorph] at hm
    split at hm
    · rename_i hk
      cases hm
      exact ⟨n, nodes_withMorph.trans (if_pos rfl), (hlist k).mpr (Or.inl hk)⟩
    · obtain ⟨n', hn', hk⟩ := h.listed hm
      rw [nodes_withMorph]
      split
      · rename_i ho
        exact ⟨n, rfl, (hlist k).mpr (Or.inr ⟨n', ho ▸ hn', hk⟩)⟩
      · exact ⟨n', hn', hk⟩
  present {o n' k} hn' hk := by
    have hold {m} (hm : g.morphs.get? k = some m) : (g.withMorph book n l name).morphs.get? k = some m := by
      have hne : k ≠ l := by
        rintro rfl
        rw [hfresh] at hm
        cases hm
      rw [morphs_withMorph, if_neg hne, hm]
    rw [nodes_withMorph] at hn'
    split at hn'
    · rename_i ho
      cases hn'
      rcases (hlist k).mp hk with rfl | ⟨n₀, hn₀, hk₀⟩
      · exact ⟨Morph.new k n.id name, by rw [morphs_withMorph, if_pos rfl], ho.symm⟩
      · obtain ⟨m, hm, hmo⟩ := h.present hn₀ hk₀
        exact ⟨m, hold hm, hmo.trans ho.symm⟩
    · obtain ⟨m, hm, hmo⟩ := h.present hn' hk
      exact ⟨m, hold hm, hmo⟩
  taken {k} := by
    show book.taken.contains k = true ↔ _
    rw [htaken, h.taken]
    simp only [Table.contains_iff, nodes_withMorph]
    by_cases hk : k = n.id <;> simp [hk]
  named {key k} hk := by
    rw [nodes_withMorph]
    rcases hnamed key k hk with hk | ⟨rfl, hkey⟩
    · obtain ⟨n', hn', hkey⟩ := h.named hk
      split
      · rename_i hko
        obtain ⟨hn, hq⟩ := hkept n' (hko ▸ hn')
        exact ⟨n, rfl, by rw [← hn, ← hq, hkey]⟩
      · exact ⟨n', hn', hkey⟩
    · exact ⟨n, if_pos rfl, hkey⟩

theorem createMorph (hn : g.nodes.get? o = some n) (name : Option String) :
    (g.withMorph g.names n.withMorph (MorphId.ofNode n.id n.nextMorph) name).Framed := by
  obtain ⟨hid, hnum⟩ := h.node hn
  subst hid
  refine h.withMorph (h.fresh_morph hn) hnum.withMorph (fun k => ?_) (fun n₀ hn₀ => ?_) (fun k => ?_)
    (fun key k hk => Or.inl hk)
  · show k ∈ n.morphs ++ _ ↔ _ ∨ ∃ n₀, g.nodes.get? n.id = some n₀ ∧ _
    simp [hn, or_comm]
  · replace hn₀ : g.nodes.get? n.id = some n₀ := hn₀
    rw [hn] at hn₀
    cases hn₀
    exact ⟨rfl, rfl⟩
  · rw [h.taken]
    refine ⟨Or.inr, ?_⟩
    rintro (rfl | hk)
    · exact Table.contains_iff.mpr ⟨n, hn⟩
    · exact hk

theorem withNode (hfree : g.nodes.contains id = false) (name : String) (qualifier : Option String) :
    (g.withNode id name qualifier).Framed := by
  have hnone : g.nodes.get? id = none := Table.contains_eq_false.mp hfree
  refine h.withMorph (h.fresh_basic hfree) (Node.numbered_new id name qualifier) (fun k => ?_) (fun n₀ hn₀ => ?_)
    (fun k => ?_) (fun key k hk => ?_)
  · show k ∈ [MorphId.ofNode id 0] ↔ _ ∨ ∃ n₀, g.nodes.get? id = some n₀ ∧ _
    simp [hnone]
  · replace hn₀ : g.nodes.get? id = some n₀ := hn₀
    rw [hnone] at hn₀
    cases hn₀
  · rw [NameBook.taken_register, KeySet.contains_add]
    exact Iff.rfl
  · rcases NameBook.byName_register hk with hk | ⟨rfl, rfl⟩
    · exact Or.inl hk
    · exact Or.inr ⟨rfl, rfl⟩

theorem unused_mint (name : String) (qualifier : Option String) :
    g.nodes.contains (g.names.mint name qualifier) = false := by
  have hfree := NameBook.mint_free g.names name qualifier
  exact Bool.eq_false_iff.mpr fun hc => Bool.eq_false_iff.mp hfree (h.taken.mpr hc)

theorem resolve (name : String) (qualifier : Option String) : (g.resolve name qualifier).2.Framed :=
  resolve_induction h (fun _ _ => h.withNode (h.unused_mint _ _) _ _) name qualifier

theorem importNode (id : NodeId) (name : String) (qualifier : Option String) :
    (g.importNode id name qualifier).2.Framed :=
  importNode_induction h (fun _ _ hfree => h.withNode hfree _ _) name qualifier

theorem withoutMorph (hm : g.morphs.get? k = some m) (hbasic : k ≠ MorphId.ofNode m.owner 0) :
    (g.withoutMorph k m).Framed where
  node {o n} hn := by
    rw [nodes_withoutMorph] at hn
    split at hn
    · rename_i ho
      obtain ⟨n₀, hn₀, rfl⟩ := Option.map_eq_some_iff.mp hn
      obtain ⟨hid, hnum⟩ := h.node hn₀
      exact ⟨hid, hnum.withoutMorph (by rw [hid, ho]; exact hbasic)⟩
    · exact h.node hn
  morph {l m'} hm' := by
    rw [morphs_withoutMorph] at hm'
    split at hm'
    · cases hm'
    · exact h.morph hm'
  listed {l m'} hm' := by
    rw [morphs_withoutMorph] at hm'
    split at hm'
    · cases hm'
    · rename_i hl
      obtain ⟨n, hn, hmem⟩ := h.listed hm'
      rw [nodes_withoutMorph]
      split
      · exact ⟨n.withoutMorph k, by rw [hn]; rfl, Node.mem_withoutMorph.mpr ⟨hmem, hl⟩⟩
      · exact ⟨n, hn, hmem⟩
  present {o n l} hn hl := by
    have hkept : ∃ n₀, g.nodes.get? o = some n₀ ∧ l ∈ n₀.morphs ∧ l ≠ k := by
      rw [nodes_withoutMorph] at hn
      split at hn
      · obtain ⟨n₀, hn₀, rfl⟩ := Option.map_eq_some_iff.mp hn
        exact ⟨n₀, hn₀, Node.mem_withoutMorph.mp hl⟩
      · rename_i ho
        refine ⟨n, hn, hl, ?_⟩
        rintro rfl
        exact ho ((h.mem_morphs_iff hn hm).mp hl).symm
    obtain ⟨n₀, hn₀, hl₀, hne⟩ := hkept
    obtain ⟨m', hm', hmo⟩ := h.present hn₀ hl₀
    exact ⟨m', by rw [morphs_withoutMorph, if_neg hne, hm'], hmo⟩
  taken {o} := by
    refine h.taken.trans ?_
    simp only [Table.contains_iff, nodes_withoutMorph]
    split <;> simp
  named {key o} hkey := by
    obtain ⟨n, hn, hname⟩ := h.named hkey
    rw [nodes_withoutMorph]
    split
    · exact ⟨n.withoutMorph k, by rw [hn]; rfl, hname⟩
    · exact ⟨n, hn, hname⟩

theorem withoutNode (hn : g.nodes.get? o = some n) : (g.withoutNode o n).Framed where
  node {k n'} hn' := by
    rw [nodes_withoutNode] at hn'
    split at hn'
    · cases hn'
    · exact h.node hn'
  morph {k m} hm := by
    rw [morphs_withoutNode] at hm
    split at hm
    · cases hm
    · exact h.morph hm
  listed {k m} hm := by
    rw [morphs_withoutNode] at hm
    split at hm
    · cases hm
    · rename_i hk
      obtain ⟨n', hn', hmem⟩ := h.listed hm
      refine ⟨n', ?_, hmem⟩
      rw [nodes_withoutNode, if_neg fun ho => hk ((h.mem_morphs_iff hn hm).mpr ho), hn']
  present {o' n' k} hn' hk := by
    rw [nodes_withoutNode] at hn'
    split at hn'
    · cases hn'
    · rename_i ho
      obtain ⟨m, hm, hmo⟩ := h.present hn' hk
      refine ⟨m, ?_, hmo⟩
      rw [morphs_withoutNode, if_neg fun hmem => ho (hmo.symm.trans ((h.mem_morphs_iff hn hm).mp hmem)), hm]
  taken {k} := by
    show (g.names.taken.erase o).contains k = true ↔ _
    rw [Table.contains_erase, h.taken]
    simp only [Table.contains_iff, nodes_withoutNode]
    by_cases hk : k = o <;> simp [hk]
  named {key k} hk := by
    -- A name that still stands for a node does not stand for the one that went.
    have hkept : g.names.byName.get? key = some k ∧ k ≠ o := by
      by_cases hkey : g.names.byName.get? (NameKey.ofName n.name n.qualifier) = some o
      · simp only [Graph.withoutNode, NameBook.unregister, hkey, if_true, Table.lookup_erase] at hk
        split at hk
        · cases hk
        · rename_i hother
          refine ⟨hk, ?_⟩
          rintro rfl
          obtain ⟨n', hn', hname⟩ := h.named hk
          rw [hn] at hn'
          cases hn'
          exact hother hname.symm
      · simp only [Graph.withoutNode, NameBook.unregister, hkey, if_false] at hk
        refine ⟨hk, ?_⟩
        rintro rfl
        obtain ⟨n', hn', hname⟩ := h.named hk
        rw [hn] at hn'
        cases hn'
        exact hkey (hname ▸ hk)
    obtain ⟨n', hn', hname⟩ := h.named hkept.1
    exact ⟨n', by rw [nodes_withoutNode, if_neg hkept.2, hn'], hname⟩

end Framed

end Graph

end Morphology
