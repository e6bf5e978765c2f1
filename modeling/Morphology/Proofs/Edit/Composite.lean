import Morphology.Proofs.Edit.Change
import Morphology.Proofs.Graph.Agreement

/-! Changes that amount to several smaller ones. To move a reference is to copy it and to drop it where it was; to add
a morph with references of another is to add an empty one and to copy them; and to delete a new morph is to be back
where it was added. Each time the two graphs are one but for versions of nodes, with their lists and indexes. -/

namespace Morphology

/-- What making a morph and deleting it leaves behind. -/
def Node.passNumber (n : Node) : Node := { n with nextMorph := n.nextMorph + 1 }

theorem Node.withMorph_withoutMorphs {n : Node} {k : MorphId} (hk : k = MorphId.ofNode n.id n.nextMorph)
    (h : n.withoutMorphs [k] = n) : n.withMorph.withoutMorphs [k] = n.passNumber := by
  have hmorphs : n.morphs.filter (· ∉ [k]) = n.morphs := congrArg Node.morphs h
  have hactive : n.active.filter (· ∉ [k]) = n.active := congrArg Node.active h
  simp only [withMorph, withoutMorphs, passNumber, ← hk, List.filter_append, hmorphs, hactive]
  simp

namespace Graph

/-- The graph with a reference less, if the morph is there. -/
def unlinking (g : Graph) (k : MorphId) (e : EdgeRef) : Graph :=
  match g.morphs.get? k with
  | some m => { g with morphs := g.morphs.insert k (m.remove e), referrers := g.referrers.remove e k }
  | none => g

variable {g g' : Graph} {k l : MorphId} {e : EdgeRef}

theorem unlinking_withNodes (g : Graph) (ns : Table NodeId Node) (k : MorphId) (e : EdgeRef) :
    unlinking { g with nodes := ns } k e = { g.unlinking k e with nodes := ns } := by
  unfold unlinking
  cases g.morphs.get? k <;> rfl

theorem SameButVersions.unlinking (h : g.SameButVersions g') (k : MorphId) (e : EdgeRef) :
    (g.unlinking k e).SameButVersions (g'.unlinking k e) :=
  h.map (f := (·.unlinking k e)) fun g ns => unlinking_withNodes g ns k e

theorem hasEdge_unlinking (g : Graph) (k : MorphId) (e e' : EdgeRef) :
    (g.unlinking k e).hasEdge e' = g.hasEdge e' := by
  unfold unlinking
  split <;> cases e' <;> rfl

theorem unlink_eq_unlinking (hr : g.Refers k e) :
    g.unlink k e = .ok ((g.referrers.remove e k).count e, g.unlinking k e) := by
  obtain ⟨m, hm, he⟩ := hr
  simp only [unlink, requireMorph, hm, unlinking]
  exact if_pos he

/-- References are left when another morph refers to the edge. -/
theorem Coherent.count_ne_zero (h : g.Coherent) (hr : g.Refers l e) (hne : l ≠ k) :
    (g.referrers.remove e k).count e ≠ 0 := by
  intro hzero
  refine Index.count_eq_zero.mp hzero l (Index.mem_items_remove.mpr ⟨?_, h.referrer.mpr hr⟩)
  exact fun hlk => hne hlk.2

/-! ## A new morph -/

namespace MorphAdded

variable {n : Node} {name : Option String} {refs : List EdgeRef} (h : g.MorphAdded n name refs k g')

include h

theorem fresh (hg : g.Sound) : g.morphs.get? k = none := h.id ▸ hg.framed.fresh_morph h.node

theorem morphs (hl : l ≠ k) : g'.morphs.get? l = g.morphs.get? l := by
  rw [h.graph.morphs, morphs_linkingAll hl, morphs_withMorph, if_neg hl]

theorem nodes (o : NodeId) : (g'.nodes.get? o).map Node.unversioned =
    if o = n.id then some n.withMorph.unversioned else (g.nodes.get? o).map Node.unversioned := by
  rw [h.graph.nodes, linkingAll_nodes, nodes_withMorph, apply_ite (Option.map Node.unversioned)]
  rfl

theorem rest : g' = { g with nodes := g'.nodes, morphs := g'.morphs, referrers := g'.referrers } := by
  obtain ⟨ms, x, hlinked⟩ := linkingAll_cases (g.withMorph g.names n.withMorph k name) k refs
  have hrest := h.graph.rest
  rw [hlinked] at hrest
  rw [hrest]
  rfl

theorem edgeOwner (e : EdgeRef) : g'.edgeOwner e = g.edgeOwner e := (congrArg (Graph.edgeOwner · e) h.rest :)

theorem morph : ∃ m, g'.morphs.get? k = some m ∧ m.owner = n.id := by
  have hnew := ((grown_linkingAll _ k refs).owns ⟨_, morphs_withMorph_self, rfl⟩ :
    ((g.withMorph g.names n.withMorph k name).linkingAll k refs).Owns n.id k)
  rwa [Owns, ← h.graph.morphs] at hnew

theorem refers (hl : l ≠ k) (hr : g.Refers l e) : g'.Refers l e := by
  obtain ⟨m, hm, he⟩ := hr
  exact ⟨m, (h.morphs hl).trans hm, he⟩

variable (hg : g.Sound)

include hg

/-- Every edge was referred to before, and still is where it was. -/
theorem not_refersOnly (hr : g'.Refers k e) : ¬g'.RefersOnly k e := by
  intro honly
  obtain ⟨o, ho⟩ := hasEdge_iff.mp (h.sound.refers_hasEdge hr)
  obtain ⟨l, hl⟩ := hg.covered e (hasEdge_of_owner ((h.edgeOwner e).symm.trans ho))
  have hne : l ≠ k := by
    rintro rfl
    obtain ⟨m, hm, -⟩ := hl
    rw [h.fresh hg] at hm
    cases hm
  exact hne (honly l (h.refers hne hl))

theorem withoutMorphs (o : NodeId) :
    (g'.nodes.get? o).map (fun n' => (n'.withoutMorphs [k]).unversioned) =
      ((g.modifyNode n.id Node.passNumber).nodes.get? o).map Node.unversioned := by
  have hswap (ns : Option Node) : ns.map (fun n' => (n'.withoutMorphs [k]).unversioned) =
      (ns.map Node.unversioned).map (·.withoutMorphs [k]) := by
    cases ns <;> rfl
  have hnot {o' : NodeId} {n' : Node} (hn' : g.nodes.get? o' = some n') : ∀ l ∈ n'.morphs, l ∉ [k] := by
    intro l hl hlk
    obtain ⟨m, hm, -⟩ := hg.present hn' hl
    rw [List.mem_singleton.mp hlk, h.fresh hg] at hm
    cases hm
  rw [hswap, h.nodes, nodes_modifyNode]
  split
  · rename_i ho
    have hkept := Node.withoutMorphs_of_disjoint (hg.node h.node).2 (hnot h.node)
    rw [ho, h.node, Option.map_some, Option.map_some, Option.map_some, ← Node.withMorph_withoutMorphs h.id hkept]
    rfl
  · rw [← hswap]
    exact Option.map_congr fun n' hn' => by rw [Node.withoutMorphs_of_disjoint (hg.node hn').2 (hnot hn')]

end MorphAdded

theorem MorphAdded.morph_of_empty {n : Node} {name : Option String} (h : g.MorphAdded n name [] k g') :
    g'.morphs.get? k = some (Morph.new k n.id name) := by
  rw [h.graph.morphs]
  exact morphs_withMorph_self

end Graph

namespace Edit

open Morphology.Graph

variable {g : Graph} {a b k : MorphId} {e : EdgeRef} {m : Morph}

theorem succeeds_requireReference (he : g.hasEdge e = true) (hr : g.Refers k e) :
    Succeeds (requireReference k e) g fun _ g' => g' = g := by
  obtain ⟨m, hm, hme⟩ := hr
  have hthere : g.requireEdge e = .ok () := if_pos he
  refine .demand_bind hthere (.demand_bind (requireMorph_eq_ok.mpr hm) ?_)
  rw [if_pos hme]
  exact .pure rfl

theorem succeeds_requireSameOwner (ho : g.edgeOwner e = some m.owner) :
    Succeeds (requireSameOwner m e) g fun _ g' => g' = g := by
  refine .get_bind ?_
  rw [ho]
  simp only [if_true]
  exact .pure rfl

theorem succeeds_copyRef (hr : g.Refers a e) (hm : g.morphs.get? b = some m) (ho : g.edgeOwner e = some m.owner) :
    Succeeds (copyRef e a b) g fun _ g' => (g.linking b e).SameButVersions g' := by
  have he : g.hasEdge e = true := hasEdge_of_owner ho
  refine .reads_bind (succeeds_requireReference he hr) fun _ => .demand_bind (requireMorph_eq_ok.mpr hm) ?_
  refine .reads_bind (succeeds_requireSameOwner ho) fun _ => .change_bind (link_eq_linking hm he) ?_
  split
  · exact (sameButVersions_touchOwner b).bind fun _ _ ht => .pure ht
  · exact .pure (.refl _)

/-- An edge that another morph refers to stays. -/
theorem succeeds_unlistRef (h : g.Coherent) (hr : g.Refers a e) (hother : g.Refers b e) (hne : a ≠ b) :
    Succeeds (unlistRef e a) g fun d g' => d = {} ∧ (g.unlinking a e).SameButVersions g' := by
  have hkept : Succeeds (purge a e) g fun gone g' => gone = false ∧ g' = g.unlinking a e := by
    refine .change_bind (unlink_eq_unlinking hr) ?_
    rw [if_neg (h.count_ne_zero hother hne.symm)]
    exact .pure ⟨rfl, rfl⟩
  refine .reads_bind (succeeds_requireReference (h.refers_hasEdge hr) hr) fun _ => ?_
  refine hkept.bind fun gone g₁ ⟨hgone, hg₁⟩ => ?_
  subst hgone hg₁
  exact (sameButVersions_touchOwner a).bind fun _ _ ht => .pure ⟨rfl, ht⟩

/-- Where no version is expected, a change of a morph asks for nothing but the morph. -/
theorem succeeds_unguarded {c : Change} {P : Outcome → Graph → Prop} (hm : g.morphs.get? k = some m)
    (hcheck : Guard.check none c = Guard.checkMorph none k) (h : Succeeds c.perform g P) :
    Succeeds (c.run none) g P := by
  have hchecked : Succeeds (Guard.check none c) g fun _ g' => g' = g := by
    rw [hcheck]
    exact .demand_bind (requireMorph_eq_ok.mpr hm) (.pure rfl)
  exact .reads_bind hchecked fun _ => h

variable (h : g.Sound)

include h

theorem succeeds_run_copyRef (hr : g.Refers a e) (hm : g.morphs.get? b = some m) (ho : g.edgeOwner e = some m.owner) :
    Succeeds ((Change.copyRef e a b).run none) g fun outcome g' =>
      (∃ added, outcome = .added added) ∧ g'.Sound ∧ (g.linking b e).SameButVersions g' := by
  have hcopied := (succeeds_copyRef hr hm ho).and (allOrNothing_copyRef h e a b).ensures
  exact succeeds_unguarded hm rfl (hcopied.map fun added _ ⟨hg', h'⟩ => ⟨⟨added, rfl⟩, h', hg'⟩)

theorem succeeds_run_unlistRef (hr : g.Refers a e) (hother : g.Refers b e) (hne : a ≠ b) :
    Succeeds ((Change.unlistRef e a).run none) g fun outcome g' =>
      outcome = .deleted {} ∧ (g.unlinking a e).SameButVersions g' := by
  obtain ⟨m, hm, -⟩ := id hr
  have hdropped := succeeds_unlistRef h.toCoherent hr hother hne
  exact succeeds_unguarded hm rfl (hdropped.map fun d _ ⟨hd, hg'⟩ => ⟨congrArg Outcome.deleted hd, hg'⟩)

/-- To move a reference is to copy it and to drop it where it was. -/
theorem ensures_moveRef (e : EdgeRef) (a b : MorphId) :
    Ensures (moveRef e a b) g fun _ g' => g'.hasEdge e = true ∧ (a ≠ b →
      Succeeds ([.copyRef e a b, .unlistRef e a].mapM (Change.run none)) g fun outcomes g'' =>
        (∃ added, outcomes = [.added added, .deleted {}]) ∧ g''.SameButVersions g') := by
  refine .reads_bind (reads_requireReference a e) fun _ hr => .demand_bind fun m hm =>
    .reads_bind (reads_requireSameOwner m e) fun _ ho => ?_
  rw [requireMorph_eq_ok] at hm
  have he : g.hasEdge e = true := hasEdge_of_owner ho
  split
  · exact .pure ⟨he, fun hne => absurd ‹a = b› hne⟩
  · rename_i hne
    have hr₁ : (g.linking b e).Refers a e := (grown_linking g b e).refers hr
    have hmoved : Succeeds (do
        let _ ← change (·.link b e)
        let _ ← change (·.unlink a e)
        touchOwner b) g fun _ g' => ((g.linking b e).unlinking a e).SameButVersions g' :=
      .change_bind (link_eq_linking hm he) (.change_bind (unlink_eq_unlinking hr₁) (sameButVersions_touchOwner b))
    refine hmoved.ensures.mono fun _ g' hg' => ⟨?_, fun _ => .mapM_cons ?_⟩
    · rw [hg'.hasEdge, hasEdge_unlinking]
      exact (grown_linking g b e).edges he
    · refine (succeeds_run_copyRef h hr hm ho).mono fun outcome g₁ ⟨⟨added, hadded⟩, h₁, hg₁⟩ => .mapM_cons ?_
      have hr₁ : g₁.Refers a e := hg₁.refers_iff.mpr hr₁
      have hother : g₁.Refers b e := hg₁.refers_iff.mpr (refers_linking hm)
      refine (succeeds_run_unlistRef h₁ hr₁ hother hne).mono fun outcome' g₂ ⟨hdeleted, hg₂⟩ => .mapM_nil ?_
      subst hadded hdeleted
      exact ⟨⟨added, rfl⟩, ((hg₁.unlinking a e).trans hg₂).symm.trans hg'⟩

/-- The references are copied one after the other. -/
theorem succeeds_run_copies {es : List EdgeRef} (hr : ∀ e ∈ es, g.Refers a e) (hm : g.morphs.get? k = some m)
    (ho : ∀ e ∈ es, g.edgeOwner e = some m.owner) :
    Succeeds ((es.map fun e => Change.copyRef e a k).mapM (Change.run none)) g fun _ g' =>
      (g.linkingAll k es).SameButVersions g' := by
  induction es generalizing g m with
  | nil => exact .mapM_nil (.refl g)
  | cons e es ih =>
    obtain ⟨hre, hr⟩ := List.forall_mem_cons.mp hr
    obtain ⟨hoe, ho⟩ := List.forall_mem_cons.mp ho
    refine .mapM_cons ((succeeds_run_copyRef h hre hm hoe).mono fun _ g₁ ⟨_, h₁, hg₁⟩ => ?_)
    have hm₁ : g₁.morphs.get? k = some (m.insert e) := by
      rw [hg₁.morphs, morphs_linking, if_pos rfl, hm, Option.map_some]
    have hr₁ : ∀ e' ∈ es, g₁.Refers a e' := fun e' he' => hg₁.refers_iff.mpr ((grown_linking g k e).refers (hr e' he'))
    have ho₁ : ∀ e' ∈ es, g₁.edgeOwner e' = some (m.insert e).owner := fun e' he' => by
      rw [hg₁.edgeOwner, edgeOwner_linking, ho e' he', Morph.insert_owner]
    exact (ih h₁ hr₁ hm₁ ho₁).mono fun _ g₂ hg₂ => (hg₁.linkingAll k es).trans hg₂

/-- To add a morph with references of another is to add an empty one and to copy them. -/
theorem ensures_addMorph_seed (o : NodeId) (name : Option String) (seed : MorphId) :
    Ensures (addMorph o name (some seed)) g fun k g' => ∃ m, g.morphs.get? seed = some m ∧
      Succeeds ((.addMorph o name none :: m.refs.map (.copyRef · seed k)).mapM (Change.run none)) g
        fun outcomes g'' => (∃ copied, outcomes = .morph k :: copied) ∧ g''.SameButVersions g' := by
  refine (allOrNothing_addMorph_spec h o name (some seed)).ensures.mono ?_
  rintro k g' ⟨n, refs, rfl, hseed, hadded, hempty⟩
  obtain ⟨m, hm, ho, rfl⟩ := hseed seed rfl
  refine ⟨m, hm, .mapM_cons (.reads_bind (.pure rfl) fun _ => hempty.map fun l g₁ hadded₁ => ?_)⟩
  obtain rfl : l = k := hadded₁.id.trans hadded.id.symm
  have hne : seed ≠ l := by
    rintro rfl
    rw [hadded.fresh h] at hm
    cases hm
  have hr : ∀ e ∈ m.refs, g₁.Refers seed e := fun e he =>
    ⟨m, (hadded₁.morphs hne).trans hm, Morph.mem_refs.mp he⟩
  have howned : ∀ e ∈ m.refs, g₁.edgeOwner e = some n.id := fun e he => by
    rw [hadded₁.edgeOwner, h.owned hm (Morph.mem_refs.mp he), ho]
  refine (succeeds_run_copies hadded₁.sound hr hadded₁.morph_of_empty howned).mono fun copied g₂ hg₂ => ?_
  exact ⟨⟨copied, rfl⟩, ((hadded₁.graph.linkingAll l m.refs).trans hg₂).symm.trans hadded.graph⟩

/-- To delete a new morph is to be back where it was added. -/
theorem succeeds_deleteMorph_added {g' : Graph} {n : Node} {name : Option String} {refs : List EdgeRef}
    (hadded : g.MorphAdded n name refs k g') (hfree : g.FreeMorph k) : Succeeds (deleteMorph k) g' fun d g'' =>
      d = { morphs := [k] } ∧ (g.modifyNode n.id Node.passNumber).SameButVersions g'' := by
  obtain ⟨m, hm, ho⟩ := hadded.morph
  have hne : k ≠ MorphId.ofNode m.owner 0 := by
    rw [ho, hadded.id]
    exact (h.node hadded.node).2.toNumbered.fresh_ne_basic
  have htransitions : g'.transitions = g.transitions := (congrArg Graph.transitions hadded.rest :)
  have hdeleted := succeeds_deleteMorph hadded.sound hm hne (hfree.of_transitions htransitions)
  refine hdeleted.mono fun d g'' ⟨h'', hexact, hd, hnames⟩ => ?_
  have hedges : ∀ e, ¬(Deletion.ofMorph g' k).edges e := fun e ⟨hr, honly⟩ => hadded.not_refersOnly h hr honly
  have hmorphs : g''.morphs = g.morphs := Table.ext_get? fun l => by
    by_cases hl : l = k
    · rw [hl, hadded.fresh h]
      exact Table.contains_eq_false.mp (hexact.morph_gone k rfl)
    · rw [hexact.morph_kept l hl, hadded.morphs hl]
      simp [Deletion.ofMorph, hl, Morph.keep_true]
  have hrelations : g''.relations = g.relations := Table.ext_get? fun id =>
    (hexact.relation_kept id (hedges _)).trans (congrArg (·.relations.get? id) hadded.rest :)
  have hattributes : g''.attributes = g.attributes := Table.ext_get? fun id =>
    (hexact.attr_kept id (hedges _)).trans (congrArg (·.attributes.get? id) hadded.rest :)
  refine ⟨?_, fun o => ?_, ?_⟩
  · rw [hd, List.eq_nil_iff_forall_not_mem.mpr fun e he => hedges e ((hexact.edges.2 e).mp he)]
  · rw [hexact.node_kept o id, hd]
    exact hadded.withoutMorphs h o
  · exact h.toCoherent.eq_of_tables h''.toCoherent hmorphs hrelations hattributes
      (hnames.trans (congrArg Graph.names hadded.rest :)) (hexact.transitions.trans htransitions)

theorem ensures_addMorph_deleteMorph (hfree : ∀ k, g.morphs.get? k = none → g.FreeMorph k) (o : NodeId)
    (name : Option String) (seed : Option MorphId) :
    Ensures (addMorph o name seed) g fun k g' => Succeeds ((Change.deleteMorph k).run none) g' fun outcome g'' =>
      outcome = .deleted { morphs := [k] } ∧ (g.modifyNode o Node.passNumber).SameButVersions g'' := by
  refine (allOrNothing_addMorph_spec h o name seed).ensures.mono ?_
  rintro k g' ⟨n, refs, rfl, -, hadded, -⟩
  obtain ⟨m, hm, -⟩ := hadded.morph
  refine succeeds_unguarded hm rfl ?_
  have hdeleted := succeeds_deleteMorph_added h hadded (hfree k (hadded.fresh h))
  exact hdeleted.map fun d _ ⟨hd, hg''⟩ => ⟨congrArg Outcome.deleted hd, hg''⟩

end Edit

end Morphology
