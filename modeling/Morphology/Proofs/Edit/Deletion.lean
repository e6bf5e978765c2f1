import Morphology.Edit.Change
import Morphology.Proofs.Graph.Removal

/-! What a deletion takes along. `Deletion.Exact` holds the graph after a deletion against the graph before it:
what was to go is gone and listed in the answer, and nothing else is different but versions of nodes. -/

namespace Morphology

/-- What is to go from a graph. -/
structure Deletion where
  nodes : NodeId → Prop := fun _ => False
  morphs : MorphId → Prop := fun _ => False
  edges : EdgeRef → Prop
  references : MorphId → EdgeRef → Prop

namespace Graph

/-- The edge starts or ends at the node, or is an attribute of it. -/
def EdgeAt (g : Graph) (o : NodeId) : EdgeRef → Prop
  | .relation k => ∃ r, g.relations.get? k = some r ∧ (r.source = o ∨ r.target = o)
  | .attr k => ∃ a, g.attributes.get? k = some a ∧ a.owner = o

theorem hasEdge_of_edgeAt {g : Graph} {o : NodeId} {e : EdgeRef} (h : g.EdgeAt o e) : g.hasEdge e = true := by
  cases e with
  | relation k => exact Table.contains_iff.mpr (h.imp fun _ => And.left)
  | attr k => exact Table.contains_iff.mpr (h.imp fun _ => And.left)

theorem edgeAt_of_owner {g : Graph} {o : NodeId} {e : EdgeRef} (h : g.edgeOwner e = some o) : g.EdgeAt o e := by
  cases e with
  | relation k =>
    obtain ⟨r, hr, ho⟩ := Option.map_eq_some_iff.mp h
    exact ⟨r, hr, Or.inl ho⟩
  | attr k => exact Option.map_eq_some_iff.mp h

def RefersOnly (g : Graph) (k : MorphId) (e : EdgeRef) : Prop :=
  ∀ l, g.Refers l e → l = k

end Graph

namespace Deletion

variable (g : Graph)

/-- A reference takes its edge along when it was the only one. -/
def ofReference (e : EdgeRef) (k : MorphId) : Deletion where
  edges e' := e' = e ∧ g.RefersOnly k e
  references l e' := l = k ∧ e' = e

def ofEdge (e : EdgeRef) : Deletion where
  edges e' := e' = e
  references _ e' := e' = e

/-- A morph takes along the edges that only it refers to. -/
def ofMorph (k : MorphId) : Deletion where
  morphs l := l = k
  edges e := g.Refers k e ∧ g.RefersOnly k e
  references l _ := l = k

/-- A node takes along its morphs, and the edges at it with all references to them. -/
def ofNode (o : NodeId) : Deletion where
  nodes o' := o' = o
  morphs k := ∃ m, g.morphs.get? k = some m ∧ m.owner = o
  edges := g.EdgeAt o
  references _ := g.EdgeAt o

end Deletion

/-- What a change that deletes is to take. -/
def Change.deletion? (g : Graph) : Change → Option Deletion
  | .unlistRef e k => some (.ofReference g e k)
  | .deleteEdge e => some (.ofEdge e)
  | .deleteMorph k => some (.ofMorph g k)
  | .deleteNode o => some (.ofNode g o)
  | _ => none

/-- The node without some morphs, in its list and in view. -/
def Node.withoutMorphs (n : Node) (ks : List MorphId) : Node :=
  { n with
    morphs := n.morphs.filter (· ∉ ks)
    active := n.active.filter (· ∉ ks) }

theorem Node.withoutMorphs_of_disjoint {n : Node} {ks : List MorphId} (hs : n.Sound)
    (h : ∀ k ∈ n.morphs, k ∉ ks) : n.withoutMorphs ks = n := by
  have hmorphs : n.morphs.filter (· ∉ ks) = n.morphs :=
    List.filter_eq_self.mpr fun k hk => by simpa using h k hk
  have hactive : n.active.filter (· ∉ ks) = n.active := by
    cases ha : n.active with
    | none => rfl
    | some k => simp [h k (hs.active k ha)]
  unfold Node.withoutMorphs
  rw [hmorphs, hactive]

theorem Node.withoutMorphs_nil (n : Node) : n.withoutMorphs [] = n := by
  have hactive : n.active.filter (· ∉ []) = n.active := by cases n.active <;> simp
  unfold Node.withoutMorphs
  rw [hactive]
  simp

theorem Node.withoutMorphs_singleton (n : Node) (k : MorphId) : n.withoutMorphs [k] = n.withoutMorph k := by
  have hactive : n.active.filter (· ∉ [k]) = if n.active = some k then none else n.active := by
    cases n.active with
    | none => rfl
    | some l => by_cases hl : l = k <;> simp [hl]
  unfold Node.withoutMorphs Node.withoutMorph
  rw [hactive]
  simp

open Classical in
/-- The deletion was made, and answered with the lists in `d`. -/
structure Deletion.Exact (x : Deletion) (d : Deleted) (g g' : Graph) : Prop where
  nodes : d.nodes.Nodup ∧ ∀ o, o ∈ d.nodes ↔ x.nodes o
  morphs : d.morphs.Nodup ∧ ∀ k, k ∈ d.morphs ↔ x.morphs k
  edges : d.edges.Nodup ∧ ∀ e, e ∈ d.edges ↔ x.edges e
  node_there : ∀ o, x.nodes o → g.nodes.contains o = true
  morph_there : ∀ k, x.morphs k → g.morphs.contains k = true
  edge_there : ∀ e, x.edges e → g.hasEdge e = true
  node_gone : ∀ o, x.nodes o → g'.nodes.contains o = false
  morph_gone : ∀ k, x.morphs k → g'.morphs.contains k = false
  edge_gone : ∀ e, x.edges e → g'.hasEdge e = false
  /-- Of a node that stays only the version is different, and the list that a morph went from. -/
  node_kept : ∀ o, ¬x.nodes o →
    (g'.nodes.get? o).map Node.unversioned = (g.nodes.get? o).map fun n => (n.withoutMorphs d.morphs).unversioned
  /-- A morph that stays has its other references in the same order. -/
  morph_kept : ∀ k, ¬x.morphs k →
    g'.morphs.get? k = (g.morphs.get? k).map (·.keep fun e => decide ¬x.references k e)
  relation_kept : ∀ k, ¬x.edges (.relation k) → g'.relations.get? k = g.relations.get? k
  attr_kept : ∀ k, ¬x.edges (.attr k) → g'.attributes.get? k = g.attributes.get? k
  transitions : g'.transitions = g.transitions

namespace Graph

variable {drops : MorphId → EdgeRef → Bool} {gone : EdgeRef → Bool} {g g₁ g₂ : Graph}

theorem Pruned.hasEdge_false (hp : Pruned drops gone g g₁) {e : EdgeRef} (he : gone e = true) :
    g₁.hasEdge e = false := by
  refine Bool.eq_false_iff.mpr fun hin => ?_
  rw [(hp.hasEdge_iff.mp hin).2] at he
  cases he

theorem Pruned.edgeAt_kept (hp : Pruned drops gone g g₁) {o : NodeId} {e : EdgeRef} (he : gone e = false) :
    g₁.EdgeAt o e ↔ g.EdgeAt o e := by
  cases e with
  | relation k => simp [EdgeAt, hp.relations, he]
  | attr k => simp [EdgeAt, hp.attributes, he]

theorem Pruned.nodes_withoutMorphs (hp : Pruned drops gone g g₁) (o : NodeId) (ks : List MorphId) :
    ((g₁.nodes.get? o).map (·.withoutMorphs ks)).map Node.unversioned =
      (g.nodes.get? o).map fun n => (n.withoutMorphs ks).unversioned := by
  have hswap (ns : Option Node) : (ns.map (·.withoutMorphs ks)).map Node.unversioned =
      (ns.map Node.unversioned).map (·.withoutMorphs ks) := by
    cases ns <;> rfl
  rw [hswap, hp.nodes, ← hswap, Option.map_map]
  rfl

/-- A deletion that takes edges and references only. -/
theorem Pruned.exact {x : Deletion} {es : List EdgeRef} (hp : Pruned drops gone g g₁) (hnodes : ∀ o, ¬x.nodes o)
    (hmorphs : ∀ k, ¬x.morphs k) (hnodup : es.Nodup) (hlisted : ∀ e, e ∈ es ↔ x.edges e)
    (hthere : ∀ e, x.edges e → g.hasEdge e = true)
    (hgone : ∀ e, g.hasEdge e = true → (gone e = true ↔ x.edges e))
    (hdrops : ∀ k e, g.Refers k e → (drops k e = true ↔ x.references k e)) :
    x.Exact { edges := es } g g₁ := by
  classical
  have hp : Pruned (fun k e => decide (x.references k e)) (fun e => decide (x.edges e)) g g₁ :=
    hp.congr (fun k e hr => Bool.eq_iff_iff.mpr (by simp [hdrops k e hr]))
      (fun e he => Bool.eq_iff_iff.mpr (by simp [hgone e he]))
  exact {
    nodes := ⟨.nil, fun o => iff_of_false List.not_mem_nil (hnodes o)⟩
    morphs := ⟨.nil, fun k => iff_of_false List.not_mem_nil (hmorphs k)⟩
    edges := ⟨hnodup, hlisted⟩
    node_there := fun o ho => absurd ho (hnodes o)
    morph_there := fun k hk => absurd hk (hmorphs k)
    edge_there := hthere
    node_gone := fun o ho => absurd ho (hnodes o)
    morph_gone := fun k hk => absurd hk (hmorphs k)
    edge_gone := fun e he => hp.hasEdge_false (by simpa using he)
    node_kept := fun o _ => by simpa [Node.withoutMorphs_nil] using hp.nodes o
    morph_kept := fun k _ => by simpa using hp.morphs k
    relation_kept := fun k hk => by simpa [hk] using hp.relations k
    attr_kept := fun k hk => by simpa [hk] using hp.attributes k
    transitions := hp.transitions }

/-- A morph that was emptied first goes with the edges that only it referred to. -/
theorem Coherent.exact_deleteMorph (h : g.Coherent) {k : MorphId} {m m₁ : Morph} {es : List EdgeRef}
    (hm : g.morphs.get? k = some m)
    (hp : Pruned (fun l e => decide (l = k ∧ e ∈ m.refs)) (fun e => decide (e ∈ es)) g g₁)
    (hm₁ : m₁.owner = m.owner) (ht : (g₁.withoutMorph k m₁).Touched g₂) (hnodup : es.Nodup)
    (hes : ∀ e, e ∈ es ↔ e ∈ m.refs ∧ g.RefersOnly k e) :
    (Deletion.ofMorph g k).Exact { morphs := [k], edges := es } g g₂ := by
  have hlisted (e : EdgeRef) : e ∈ es ↔ g.Refers k e ∧ g.RefersOnly k e := by
    rw [hes, Morph.mem_refs]
    simp [Refers, hm]
  refine {
    nodes := ⟨.nil, fun o => iff_of_false List.not_mem_nil id⟩
    morphs := ⟨List.nodup_singleton k, fun l => List.mem_singleton⟩
    edges := ⟨hnodup, hlisted⟩
    node_there := fun _ ho => absurd ho id
    morph_there := ?_
    edge_there := fun e he => h.refers_hasEdge he.1
    node_gone := fun _ ho => absurd ho id
    morph_gone := ?_
    edge_gone := fun e he => ?_
    node_kept := fun o _ => ?_
    morph_kept := fun l hl => ?_
    relation_kept := fun id hid => ?_
    attr_kept := fun id hid => ?_
    transitions := ht.transitions.trans hp.transitions }
  · rintro l rfl
    exact Table.contains_iff.mpr ⟨m, hm⟩
  · rintro l rfl
    rw [Table.contains_eq_false, ht.morphs, morphs_withoutMorph, if_pos rfl, Option.map_none]
  · refine Bool.eq_false_iff.mpr fun hin => ?_
    have hin₁ : g₁.hasEdge e = true := (ht.hasEdge_iff.mp hin).1
    simpa [(hlisted e).mpr he] using (hp.hasEdge_iff.mp hin₁).2
  · rw [ht.nodes, nodes_withoutMorph, hm₁]
    split
    · simp only [← Node.withoutMorphs_singleton]
      exact hp.nodes_withoutMorphs o [k]
    · rename_i ho
      -- No other node lists the morph, since it has one owner only.
      rw [hp.nodes]
      refine Option.map_congr fun n hn => ?_
      obtain ⟨-, hs⟩ := h.node hn
      rw [Node.withoutMorphs_of_disjoint hs fun l hl => ?_]
      rintro hlk
      rw [List.mem_singleton.mp hlk] at hl
      exact ho ((h.framed.mem_morphs_iff hn hm).mp hl).symm
  · replace hl : l ≠ k := hl
    rw [ht.morphs, morphs_withoutMorph, if_neg hl, hp.morphs, Option.map_map]
    refine congrArg (Option.map · _) (funext fun m' => ?_)
    simp [Morph.keep_keep, Deletion.ofMorph, hl]
  · rw [ht.relations]
    refine (hp.relations id).trans (if_neg fun hin => hid ?_)
    exact (hlisted _).mp (by simpa using hin)
  · rw [ht.attributes]
    refine (hp.attributes id).trans (if_neg fun hin => hid ?_)
    exact (hlisted _).mp (by simpa using hin)

/-- A node goes with its morphs when these were emptied and the edges at it removed. -/
theorem Coherent.exact_deleteNode (h : g.Coherent) {o : NodeId} {n n₁ : Node} {es : List EdgeRef}
    (hn : g.nodes.get? o = some n) (hp : Pruned drops (fun e => decide (e ∈ es)) g g₁) (hn₁ : n₁.morphs = n.morphs)
    (hnodup : es.Nodup) (hes : ∀ e, e ∈ es ↔ g.EdgeAt o e)
    (hdrops : ∀ k e, k ∉ n.morphs → g.Refers k e → (drops k e = true ↔ g.EdgeAt o e)) :
    (Deletion.ofNode g o).Exact { nodes := [o], morphs := n.morphs, edges := es } g
      (g₁.withoutNode o n₁) := by
  obtain ⟨-, hs⟩ := h.node hn
  have hmorphs (k : MorphId) : k ∈ n.morphs ↔ ∃ m, g.morphs.get? k = some m ∧ m.owner = o :=
    ⟨h.present hn, fun ⟨_, hm, ho⟩ => (h.framed.mem_morphs_iff hn hm).mpr ho⟩
  refine {
    nodes := ⟨List.nodup_singleton o, fun o' => List.mem_singleton⟩
    morphs := ⟨hs.nodup, hmorphs⟩
    edges := ⟨hnodup, hes⟩
    node_there := ?_
    morph_there := fun k ⟨m, hm, _⟩ => Table.contains_iff.mpr ⟨m, hm⟩
    edge_there := fun e => hasEdge_of_edgeAt
    node_gone := ?_
    morph_gone := fun k hk => ?_
    edge_gone := fun e he => hp.hasEdge_false (by simpa using (hes e).mpr he)
    node_kept := fun o' ho' => ?_
    morph_kept := fun k hk => ?_
    relation_kept := fun id hid => ?_
    attr_kept := fun id hid => ?_
    transitions := hp.transitions }
  · rintro o' rfl
    exact Table.contains_iff.mpr ⟨n, hn⟩
  · rintro o' rfl
    rw [Table.contains_eq_false, nodes_withoutNode, if_pos rfl]
  · rw [Table.contains_eq_false, morphs_withoutNode, hn₁, if_pos ((hmorphs k).mpr hk)]
  · replace ho' : o' ≠ o := ho'
    rw [nodes_withoutNode, if_neg ho', hp.nodes]
    refine Option.map_congr fun n' hn' => ?_
    obtain ⟨-, hs'⟩ := h.node hn'
    rw [Node.withoutMorphs_of_disjoint hs' fun k hk hin => ?_]
    obtain ⟨m, hm, hmo⟩ := h.present hn' hk
    exact ho' (hmo.symm.trans ((h.framed.mem_morphs_iff hn hm).mp hin))
  · have hin : k ∉ n.morphs := fun hin => hk ((hmorphs k).mp hin)
    rw [morphs_withoutNode, hn₁, if_neg hin, hp.morphs]
    refine Option.map_congr fun m hm => Morph.keep_congr fun e he => ?_
    have hd := hdrops k e hin ⟨m, hm, he⟩
    simp [Deletion.ofNode, ← hd]
  · refine (hp.relations id).trans (if_neg fun hin => hid ?_)
    exact (hes _).mp (by simpa using hin)
  · refine (hp.attributes id).trans (if_neg fun hin => hid ?_)
    exact (hes _).mp (by simpa using hin)

end Graph

end Morphology
