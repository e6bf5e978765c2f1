import Morphology.Proofs.Graph.Subjects
import Morphology.Proofs.Session.Cascade
import Morphology.View.Basic

/-! Composed views. Every node is shown once, in the state that is asked for where that is one of its own, and the edges
shown are those that the chosen states refer to. None of these is missing, and none of them leads out of the view. -/

namespace Morphology

/-- A node is shown as it is stored, with all its states and in one of them. -/
structure NodeView.Shows (g : Graph) (active : Table NodeId MorphId) (v : NodeView) : Prop where
  node : g.nodes.get? v.node.id = some v.node
  morphs : v.morphs.map some = v.node.morphs.map g.morphs.get?
  there : ∀ m ∈ v.morphs, ∀ e ∈ m.refs, g.hasEdge e = true
  /-- What is asked for counts only if it is a state of the node. -/
  asked : ∀ k ∈ v.node.morphs, active.get? v.node.id = some k → v.chosen = k
  unasked : (∀ k ∈ v.node.morphs, active.get? v.node.id ≠ some k) →
    v.chosen = v.node.active.getD (MorphId.ofNode v.node.id 0)
  chosen : ∃ m ∈ v.morphs, m.id = v.chosen
  reused : v.reused = true ↔ ¬g.space.stem.toList <+: v.node.id.text.toList

namespace View

def records (view : View) : List EdgeRecord := view.relations.map .relation ++ view.attributes.map .attr

structure Shows (g : Graph) (active : Table NodeId MorphId) (view : View) : Prop where
  space : view.space = g.space
  nodes : view.nodes.map (·.node.id) = g.nodes.keys
  ordered : view.nodes.Pairwise fun v w => compare v.node.id w.node.id = .lt
  node : ∀ v ∈ view.nodes, v.Shows g active
  relations : view.relations.Pairwise fun r r' => compare r.id r'.id = .lt
  attributes : view.attributes.Pairwise fun a a' => compare a.id a'.id = .lt
  records : ∀ w ∈ view.records, g.record? w.ref = some w
  /-- The edges shown are those that the states shown refer to. -/
  edges : ∀ e, (∃ w ∈ view.records, w.ref = e) ↔ ∃ v ∈ view.nodes, ∃ m ∈ v.morphs, m.id = v.chosen ∧ e ∈ m.refs
  ends : ∀ w ∈ view.records, w.subject.EndsAll fun o => ∃ v ∈ view.nodes, v.node.id = o

end View

namespace Graph

section Choice

variable {active : Table NodeId MorphId} {n : Node}

theorem chosenMorph_asked {k : MorphId} (hk : k ∈ n.morphs) (ha : active.get? n.id = some k) :
    chosenMorph active n = k := by
  have hmorph : n.hasMorph k = true := List.contains_iff_mem.mpr hk
  rw [chosenMorph, ha, Option.filter_some, if_pos hmorph, Option.getD_some]

theorem chosenMorph_unasked (ha : ∀ k ∈ n.morphs, active.get? n.id ≠ some k) :
    chosenMorph active n = n.activeMorph := by
  have hnone : (active.get? n.id).filter n.hasMorph = none := by
    refine Option.filter_eq_none_iff.mpr fun k hk hmorph => ?_
    exact ha k (List.contains_iff_mem.mp hmorph) hk
  rw [chosenMorph, hnone, Option.getD_none]

theorem activeMorph_eq (h : n.Sound) : n.activeMorph = n.active.getD (MorphId.ofNode n.id 0) := by
  rw [Node.activeMorph, h.toNumbered.basicMorph_eq]

/-- Whatever is asked for, a node is in one of its states. -/
theorem chosenMorph_mem (h : n.Sound) (active : Table NodeId MorphId) : chosenMorph active n ∈ n.morphs := by
  by_cases hasked : ∃ k ∈ n.morphs, active.get? n.id = some k
  · obtain ⟨k, hk, ha⟩ := hasked
    rwa [chosenMorph_asked hk ha]
  · rw [chosenMorph_unasked fun k hk ha => hasked ⟨k, hk, ha⟩, activeMorph_eq h]
    cases hactive : n.active with
    | none => exact List.mem_of_mem_head? h.basic
    | some k => exact h.active k hactive

end Choice

namespace Coherent

variable {g : Graph} (h : g.Coherent) (active : Table NodeId MorphId)

include h

theorem mem_nodes_compose {v : NodeView} :
    v ∈ (g.compose active).nodes ↔ ∃ n, g.nodes.get? n.id = some n ∧ g.nodeView active n = v := by
  show v ∈ g.nodes.values.map (g.nodeView active) ↔ _
  simp only [List.mem_map, Table.mem_values]
  refine exists_congr fun n => and_congr_left fun _ => ⟨fun ⟨k, hn⟩ => ?_, fun hn => ⟨n.id, hn⟩⟩
  rwa [(h.node hn).1]

/-- The records of a node's states, in the order of its list. -/
theorem morphsOf_spec {o : NodeId} {n : Node} (hn : g.nodes.get? o = some n) :
    (g.morphsOf n).map some = n.morphs.map g.morphs.get? := by
  have hall : ∀ k ∈ n.morphs, ∃ m, g.morphs.get? k = some m := fun k hk => (h.present hn hk).imp fun _ => And.left
  unfold morphsOf
  generalize n.morphs = ks at hall
  induction ks with
  | nil => rfl
  | cons k ks ih =>
    obtain ⟨⟨m, hm⟩, hks⟩ := List.forall_mem_cons.mp hall
    rw [List.filterMap_cons_some hm, List.map_cons, List.map_cons, hm, ih hks]

theorem shows_nodeView {n : Node} (hn : g.nodes.get? n.id = some n) : (g.nodeView active n).Shows g active where
  node := hn
  morphs := h.morphsOf_spec hn
  there m hm e he :=
    h.refers_hasEdge ⟨m, (h.framed.mem_morphsOf.mp hm).2, Morph.mem_refs.mp he⟩
  asked _ hk ha := chosenMorph_asked hk ha
  unasked ha := (chosenMorph_unasked ha).trans (activeMorph_eq (h.node hn).2)
  chosen := by
    have hmem := chosenMorph_mem (h.node hn).2 active
    obtain ⟨m, hm, -⟩ := h.present hn hmem
    have hid := (h.morph hm).1
    exact ⟨m, h.framed.mem_morphsOf.mpr ⟨hid ▸ hmem, hid ▸ hm⟩, hid⟩
  reused := by
    show (!g.space.owns n.id) = true ↔ _
    rw [Bool.not_eq_true', ← Bool.not_eq_true, Namespace.owns, List.isPrefixOf_iff_prefix]
    rfl

/-- The edges of the view are looked up by the references of the chosen states. -/
theorem mem_chosenMorphs {m : Morph} :
    m ∈ g.chosenMorphs active ↔ ∃ v ∈ (g.compose active).nodes, m ∈ v.morphs ∧ m.id = v.chosen := by
  unfold chosenMorphs
  simp only [List.mem_filterMap, h.mem_nodes_compose]
  constructor
  · rintro ⟨n, hn, hm⟩
    obtain ⟨o, hn⟩ := Table.mem_values.mp hn
    obtain ⟨hid, hs⟩ := h.node hn
    have hmid := (h.morph hm).1
    refine ⟨g.nodeView active n, ⟨n, hid ▸ hn, rfl⟩, h.framed.mem_morphsOf.mpr ?_, hmid⟩
    rw [hmid]
    exact ⟨chosenMorph_mem hs active, hm⟩
  · rintro ⟨v, ⟨n, hn, rfl⟩, hm, hid⟩
    refine ⟨n, Table.mem_values.mpr ⟨n.id, hn⟩, ?_⟩
    obtain ⟨-, hm⟩ := h.framed.mem_morphsOf.mp hm
    rwa [hid] at hm

theorem mem_records_compose {w : EdgeRecord} :
    w ∈ (g.compose active).records ↔ g.record? w.ref = some w ∧ ∃ m ∈ g.chosenMorphs active, w.ref ∈ m.refs := by
  cases w with
  | relation r =>
    have hr : r ∈ (g.compose active).relations ↔
        g.relations.get? r.id = some r ∧ r.id ∈ (g.chosenMorphs active).flatMap (·.relations) :=
      KeySet.mem_filterMap_ofList fun hr => (h.relation hr).1
    simp only [View.records, List.mem_append, List.mem_map, EdgeRecord.relation.injEq, exists_eq_right, reduceCtorEq,
      and_false, exists_false, or_false, hr, List.mem_flatMap, EdgeRecord.ref, record?, Option.map_eq_some_iff,
      Morph.mem_refs, Morph.contains, List.contains_iff_mem]
  | attr a =>
    have ha : a ∈ (g.compose active).attributes ↔
        g.attributes.get? a.id = some a ∧ a.id ∈ (g.chosenMorphs active).flatMap (·.attributes) :=
      KeySet.mem_filterMap_ofList fun ha => (h.attr ha).1
    simp only [View.records, List.mem_append, List.mem_map, EdgeRecord.attr.injEq, exists_eq_right, reduceCtorEq,
      and_false, exists_false, false_or, ha, List.mem_flatMap, EdgeRecord.ref, record?, Option.map_eq_some_iff,
      Morph.mem_refs, Morph.contains, List.contains_iff_mem]

theorem ids_compose : (g.compose active).nodes.map (·.node.id) = g.nodes.keys := by
  show (g.nodes.values.map (g.nodeView active)).map _ = _
  rw [List.map_map]
  exact Table.map_values fun hn => (h.node hn).1

theorem edge_compose_iff {e : EdgeRef} :
    (∃ w ∈ (g.compose active).records, w.ref = e) ↔
      ∃ v ∈ (g.compose active).nodes, ∃ m ∈ v.morphs, m.id = v.chosen ∧ e ∈ m.refs := by
  constructor
  · rintro ⟨w, hw, rfl⟩
    obtain ⟨-, m, hm, he⟩ := (h.mem_records_compose active).mp hw
    obtain ⟨v, hv, hmv, hid⟩ := (h.mem_chosenMorphs active).mp hm
    exact ⟨v, hv, m, hmv, hid, he⟩
  · rintro ⟨v, hv, m, hmv, hid, he⟩
    have hm : m ∈ g.chosenMorphs active := (h.mem_chosenMorphs active).mpr ⟨v, hv, hmv, hid⟩
    obtain ⟨n, hn, rfl⟩ := (h.mem_nodes_compose active).mp hv
    have hthere := (h.shows_nodeView active hn).there m hmv e he
    rw [hasEdge_eq] at hthere
    obtain ⟨w, hw⟩ := Option.isSome_iff_exists.mp hthere
    obtain ⟨rfl, -⟩ := h.record hw
    exact ⟨w, (h.mem_records_compose active).mpr ⟨hw, m, hm, he⟩, rfl⟩

/-- No view is left with an edge that leads out of it, since none is in the graph. -/
theorem shows_compose : (g.compose active).Shows g active := by
  have hnodes := h.ids_compose active
  have hrecords : ∀ w ∈ (g.compose active).records, g.record? w.ref = some w :=
    fun w hw => ((h.mem_records_compose active).mp hw).1
  refine {
    space := rfl
    nodes := hnodes
    ordered := List.pairwise_map.mp (hnodes ▸ g.nodes.increasing_keys)
    node := fun v hv => ?_
    relations := Table.increasing_filterMap (fun hr => (h.relation hr).1) (Table.increasing_keys _)
    attributes := Table.increasing_filterMap (fun ha => (h.attr ha).1) (Table.increasing_keys _)
    records := hrecords
    edges := fun e => h.edge_compose_iff active
    ends := fun w hw => (h.record (hrecords w hw)).2.2.mono fun o ho => ?_ }
  · obtain ⟨n, hn, rfl⟩ := (h.mem_nodes_compose active).mp hv
    exact h.shows_nodeView active hn
  · rw [← Table.mem_keys, ← hnodes] at ho
    exact List.mem_map.mp ho

end Coherent

end Graph

namespace Session

theorem shows_of_reachable {s : Session} (h : s.Reachable) (active : Table NodeId MorphId) :
    (s.graph.compose active).Shows s.graph active :=
  h.sound.shows_compose active

def youth : Table NodeId MorphId := (∅ : Table NodeId MorphId).insert ⟨"crow"⟩ ⟨"crow::morph::1"⟩

/-- The crow is black when it is young, and its color is shown once. -/
theorem shows_youngCrow :
    youngCrow.Reachable ∧ (youngCrow.graph.compose youth).nodes.map (·.chosen) = [⟨"crow::morph::1"⟩] ∧
      (youngCrow.graph.compose youth).attributes.map (·.value) = ["black"] ∧
      (youngCrow.graph.compose youth).Shows youngCrow.graph youth :=
  ⟨reachable_youngCrow, by decide +kernel, by decide +kernel, shows_of_reachable reachable_youngCrow youth⟩

end Session

end Morphology
