import Morphology.Edit.Morphs
import Morphology.Proofs.Edit.References

/-! Adding, choosing and deleting morphs. What a new morph starts with are references of its own node, so each
of them can be linked; what a deleted one leaves are references that it had, so each of them can be dropped. -/

namespace Morphology

namespace Graph

/-- A name that a morph of the node may be given: in its own spelling, and that of no other morph in any. -/
structure FreeName (g : Graph) (o : NodeId) (name : Option String) : Prop where
  spelled : Text.collapse? name = name
  free : ∀ {k m a b}, g.morphs.get? k = some m → m.owner = o → m.name = some a → name = some b →
    Text.fold a ≠ Text.fold b

theorem freeName_none (g : Graph) (o : NodeId) : g.FreeName o none := ⟨rfl, nofun⟩

theorem Framed.freeName {g : Graph} (h : g.Framed) {o : NodeId} {n : Node} {name : String}
    (hn : g.nodes.get? o = some n) (hspelled : Text.collapse? (some name) = some name)
    (hfree : ¬((g.morphsOf n).any fun m => m.name.map Text.fold == some (Text.fold name)) = true) :
    g.FreeName o (some name) := by
  refine ⟨hspelled, fun {k m a b} hm ho ha hb hfold => hfree ?_⟩
  cases hb
  obtain rfl := h.morph hm
  exact List.any_eq_true.mpr ⟨m, (h.mem_morphsOf_iff hn).mpr ⟨hm, ho⟩, by simp [ha, hfold]⟩

/-- The node has one more morph, with these references; else nothing but versions of nodes is different. -/
structure MorphAdded (g : Graph) (n : Node) (name : Option String) (refs : List EdgeRef) (k : MorphId)
    (g' : Graph) : Prop where
  node : g.nodes.get? n.id = some n
  id : k = MorphId.ofNode n.id n.nextMorph
  sound : g'.Sound
  graph : ((g.withMorph g.names n.withMorph k name).linkingAll k refs).SameButVersions g'

end Graph

namespace Edit

open Morphology.Graph

variable {g : Graph}

/-- What is left to do when nothing speaks against a new morph. -/
def makeMorph (o : NodeId) (name : Option String) (refs : List EdgeRef) : Edit MorphId := do
  let id ← change (·.createMorph o name)
  linkAll id refs
  touchNode o
  return id

/-- The node and the name are checked before the seed is looked at. -/
theorem addMorph_cases (hf : g.Framed) (o : NodeId) (name : Option String) :
    (∀ seed, ∃ e, addMorph o name seed g = .error e g) ∨
      ∃ n, g.nodes.get? o = some n ∧ g.FreeName o (Text.collapse? name) ∧
        ∀ seed, addMorph o name seed g = (seedRefs o seed >>= makeMorph o (Text.collapse? name)) g := by
  have hspelled := Text.collapse?_collapse? name
  cases hn : g.nodes.get? o with
  | none =>
    have hasked : demand (·.requireNode o) g = .error (.reference (.notFound .node o.text)) g := by
      simp only [demand, requireNode, hn]
    exact Or.inl fun seed => ⟨_, bind_error hasked⟩
  | some n =>
    have hasked : demand (·.requireNode o) g = .ok n g := by
      simp only [demand, requireNode, hn]
    cases hname : Text.collapse? name with
    | none =>
      refine Or.inr ⟨n, rfl, g.freeName_none o, fun seed => (bind_ok hasked).trans ?_⟩
      rw [hname]
      rfl
    | some b =>
      rw [hname] at hspelled
      have hrun (seed : Option MorphId) : addMorph o name seed g =
          if (g.morphsOf n).any fun m => m.name.map Text.fold == some (Text.fold b) then
            .error (.duplicate ⟨b, .graph⟩) g
          else (seedRefs o seed >>= makeMorph o (some b)) g := by
        refine (bind_ok hasked).trans ?_
        rw [hname]
        refine (bind_ok (x := get) (s := g) rfl).trans ?_
        dsimp only
        split <;> rfl
      by_cases htaken : ((g.morphsOf n).any fun m => m.name.map Text.fold == some (Text.fold b)) = true
      · exact Or.inl fun seed => ⟨_, (hrun seed).trans (if_pos htaken)⟩
      · exact Or.inr ⟨n, rfl, hf.freeName hn hspelled htaken, fun seed => (hrun seed).trans (if_neg htaken)⟩

theorem reads_requireFreeMorph (k : MorphId) : Reads (requireFreeMorph k) g fun _ => g.FreeMorph k := by
  refine .get_bind ?_
  split
  · exact .refuse _
  · rename_i hnone
    exact Reads.pure fun id t ht p hp hpk => List.find?_eq_none.mp hnone t (Table.mem_values.mpr ⟨id, ht⟩)
      (List.any_eq_true.mpr ⟨p, hp, beq_iff_eq.mpr hpk⟩)

theorem succeeds_requireFreeMorph {k : MorphId} (hfree : g.FreeMorph k) :
    Succeeds (requireFreeMorph k) g fun _ g' => g' = g := by
  refine .get_bind ?_
  split
  · rename_i t hsome
    have hnamed := List.find?_some hsome
    obtain ⟨p, hp, hpk⟩ := List.any_eq_true.mp hnamed
    obtain ⟨id, ht⟩ := Table.mem_values.mp (List.mem_of_find?_eq_some hsome)
    exact absurd (beq_iff_eq.mp hpk) (hfree id t ht p hp)
  · exact .pure rfl

variable (h : g.Sound)

include h

theorem reads_seedRefs (o : NodeId) (seed : Option MorphId) : Reads (seedRefs o seed) g fun refs =>
    (∀ e ∈ refs, g.edgeOwner e = some o) ∧
      ∀ k, seed = some k → ∃ m, g.morphs.get? k = some m ∧ m.owner = o ∧ refs = m.refs := by
  cases seed with
  | none => exact Reads.pure ⟨List.forall_mem_nil _, nofun⟩
  | some k =>
    refine (Reads.demand _).bind fun m hm => ?_
    rw [requireMorph_eq_ok] at hm
    split
    · rename_i ho
      refine Reads.pure ⟨fun e he => ?_, fun l hl => ?_⟩
      · rw [h.owned hm (Morph.mem_refs.mp he), ho]
      · cases hl
        exact ⟨m, hm, ho, rfl⟩
    · exact .refuse _

theorem succeeds_linkAll {k : MorphId} {m : Morph} {es : List EdgeRef} (hm : g.morphs.get? k = some m)
    (hes : ∀ e ∈ es, g.edgeOwner e = some m.owner) :
    Succeeds (linkAll k es) g fun _ g' => g'.Sound ∧ g' = g.linkingAll k es := by
  induction es generalizing g m with
  | nil => exact .pure ⟨h, rfl⟩
  | cons e es ih =>
    obtain ⟨added, g₁, hrun, h₁, hl, -⟩ := h.link_eq hm (hes e List.mem_cons_self)
    obtain ⟨-, -, -, rfl⟩ := link_eq_ok hrun
    refine .change_bind hrun (ih (m := m.insert e) h₁ ?_ fun e' he' => ?_)
    · rw [hl.morphs, if_pos rfl, hm, Option.map_some]
    · rw [hl.edgeOwner, Morph.insert_owner]
      exact hes e' (List.mem_cons_of_mem _ he')

/-- A morph whose name is free can be made with references of its node. -/
theorem succeeds_makeMorph {o : NodeId} {n : Node} {name : Option String} {refs : List EdgeRef}
    (hn : g.nodes.get? o = some n) (hname : g.FreeName o name) (hrefs : ∀ e ∈ refs, g.edgeOwner e = some o) :
    Succeeds (makeMorph o name refs) g (g.MorphAdded n name refs) := by
  obtain ⟨rfl, -⟩ := h.node hn
  have h₁ := h.withMorph (h.framed.fresh_morph hn) (h.createMorph hn fun _ _ _ _ => hname.free)
  refine .change_bind (createMorph_eq hn rfl) ?_
  refine (succeeds_linkAll h₁ morphs_withMorph_self hrefs).bind fun _ g₂ ⟨h₂, hg₂⟩ => ?_
  exact (succeeds_touchNode h₂ n.id).bind fun _ g₃ ⟨h₃, ht⟩ => .pure ⟨hn, rfl, h₃, hg₂ ▸ ht⟩

/-- What a morph is added with does not decide whether one can be added. -/
theorem allOrNothing_addMorph_spec (o : NodeId) (name : Option String) (seed : Option MorphId) :
    AllOrNothing (addMorph o name seed) g fun k g' => ∃ n refs, n.id = o ∧
      (∀ l, seed = some l → ∃ m, g.morphs.get? l = some m ∧ m.owner = o ∧ refs = m.refs) ∧
      g.MorphAdded n (Text.collapse? name) refs k g' ∧
      Succeeds (addMorph o name none) g (g.MorphAdded n (Text.collapse? name) []) := by
  obtain hrefused | ⟨n, hn, hname, hrun⟩ := addMorph_cases h.framed o name
  · exact Or.inr (hrefused seed)
  · have hempty : Succeeds (addMorph o name none) g (g.MorphAdded n (Text.collapse? name) []) := by
      rw [Succeeds, hrun]
      exact succeeds_makeMorph h hn hname (List.forall_mem_nil _)
    rw [AllOrNothing, Succeeds, hrun]
    refine (reads_seedRefs h o seed).bind fun refs ⟨hrefs, hseed⟩ => Succeeds.allOrNothing ?_
    exact (succeeds_makeMorph h hn hname hrefs).mono fun k g' hadded => ⟨n, refs, (h.node hn).1, hseed, hadded, hempty⟩

theorem allOrNothing_addMorph (o : NodeId) (name : Option String) (seed : Option MorphId) :
    AllOrNothing (addMorph o name seed) g fun _ g' => g'.Sound :=
  (allOrNothing_addMorph_spec h o name seed).mono fun _ _ ⟨_, _, _, _, hadded, _⟩ => hadded.sound

theorem allOrNothing_switchActive (o : NodeId) (k : MorphId) :
    AllOrNothing (switchActive o k) g fun _ g' => g'.Sound := by
  refine (Reads.demand _).bind fun n hn => ?_
  split
  · rename_i hk
    refine Succeeds.allOrNothing (.modify (h.modifyNode fun n' hn' => ?_))
    rw [requireNode_eq_ok, hn'] at hn
    cases hn
    refine ⟨rfl, rfl, rfl, rfl, rfl, fun l hl => Or.inr ?_⟩
    cases hl
    simpa [Node.hasMorph] using hk
  · refine .get_bind ?_
    split
    · exact .refuse _
    · exact .refuse _

/-- A morph that is not basic goes with the edges that only it refers to. -/
theorem succeeds_removeMorph {k : MorphId} {m : Morph} (hm : g.morphs.get? k = some m)
    (hne : k ≠ MorphId.ofNode m.owner 0) : Succeeds (do
      let edges ← purgeAll k m.refs
      let _ ← change (·.removeMorph k)
      touchNode m.owner
      return { morphs := [k], edges := edges }) g fun d g' =>
        g'.Sound ∧ (Deletion.ofMorph g k).Exact d g g' ∧ d = { morphs := [k], edges := d.edges } ∧
          g'.names = g.names := by
  have hrefers : ∀ e ∈ m.refs, g.Refers k e := fun e he => ⟨m, hm, Morph.mem_refs.mp he⟩
  refine (succeeds_purgeAll h (h.morph hm).2.nodup_refs hrefers).bind fun edges g₁ hpurged => ?_
  obtain ⟨h₁, hnodup, hedges, hp⟩ := hpurged
  have hm₁ := hp.morph hm
  have hfree : ∀ e, (m.keep fun e => !decide (k = k ∧ e ∈ m.refs)).contains e = false := by
    intro e
    refine Bool.eq_false_iff.mpr fun he => ?_
    obtain ⟨he, hp⟩ := Morph.contains_keep.mp he
    simp [Morph.mem_refs, he] at hp
  refine .change_bind (removeMorph_eq hm₁) ?_
  have h₂ := h₁.withoutMorph hm₁ hfree hne
  refine (succeeds_touchNode h₂ m.owner).bind fun _ g₃ htouched => .pure ⟨htouched.1, ?_, rfl, ?_⟩
  · exact h.exact_deleteMorph hm hp rfl htouched.2.touched hnodup hedges
  · exact htouched.2.names.trans hp.names

theorem succeeds_deleteMorph {k : MorphId} {m : Morph} (hm : g.morphs.get? k = some m)
    (hne : k ≠ MorphId.ofNode m.owner 0) (hfree : g.FreeMorph k) : Succeeds (deleteMorph k) g fun d g' =>
      g'.Sound ∧ (Deletion.ofMorph g k).Exact d g g' ∧ d = { morphs := [k], edges := d.edges } ∧
        g'.names = g.names := by
  obtain ⟨n, hn, -⟩ := h.listed hm
  have hbasic : n.basicMorph ≠ k := by
    obtain ⟨hid, hs⟩ := h.node hn
    rw [hs.toNumbered.basicMorph_eq, hid]
    exact hne.symm
  refine .demand_bind (requireMorph_eq_ok.mpr hm) (.demand_bind (requireNode_eq_ok.mpr hn) ?_)
  rw [if_neg hbasic]
  exact .reads_bind (succeeds_requireFreeMorph hfree) fun _ => succeeds_removeMorph h hm hne

theorem allOrNothing_deleteMorph (k : MorphId) :
    AllOrNothing (deleteMorph k) g fun d g' => g'.Sound ∧ (Deletion.ofMorph g k).Exact d g g' := by
  refine (Reads.demand _).bind fun m hm => ?_
  refine (Reads.demand _).bind fun n hn => ?_
  rw [requireMorph_eq_ok] at hm
  rw [requireNode_eq_ok] at hn
  split
  · exact .throw_bind _
  · rename_i hbasic
    have hne : k ≠ MorphId.ofNode m.owner 0 := by
      rintro rfl
      obtain ⟨hid, hs⟩ := h.node hn
      exact hbasic (by rw [hs.toNumbered.basicMorph_eq, hid])
    refine (reads_requireFreeMorph k).bind fun _ _ => Succeeds.allOrNothing ?_
    exact (succeeds_removeMorph h hm hne).mono fun _ _ ⟨h', hexact, _⟩ => ⟨h', hexact⟩

end Edit

end Morphology
