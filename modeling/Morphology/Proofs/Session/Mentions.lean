import Morphology.Proofs.Session.States

/-! Operations that are told a morph by its id. They go through only where the morph is there, so each of them is refused
once it is gone. -/

namespace Morphology

def Change.Mentions (m : MorphId) : Change → Prop
  | .addMorph _ _ seed => seed = some m
  | .switchActive _ morph => morph = m
  | .deleteMorph morph => morph = m
  | .copyRef _ source target => source = m ∨ target = m
  | .moveRef _ source target => source = m ∨ target = m
  | .unlistRef _ morph => morph = m
  | .upsertRelation morph _ => morph = m
  | .upsertAttribute morph _ => morph = m
  | _ => False

def Operation.Mentions (m : MorphId) : Operation → Prop
  | .change c => c.Mentions m
  | .changeGuarded _ c => c.Mentions m
  | .createTransition draft => ∃ p ∈ draft.inputs ++ draft.outputs, p.morph = m
  | .updateTransition _ update => ∃ p ∈ update.inputs.getD [] ++ update.outputs.getD [], p.morph = m
  | _ => False

theorem TransitionUpdate.mem_pairs_apply {update : TransitionUpdate} {t : Transition} {p : StatePair}
    (h : p ∈ update.inputs.getD [] ++ update.outputs.getD []) : p ∈ (update.apply t).pairs := by
  have hgiven {new : Option (List StatePair)} (old : List StatePair) (hp : p ∈ new.getD []) : p ∈ new.getD old := by
    cases new with
    | none => cases hp
    | some ps => exact hp
  rcases List.mem_append.mp h with hin | hout
  · exact List.mem_append.mpr (.inl (hgiven t.inputs hin))
  · exact List.mem_append.mpr (.inr (hgiven t.outputs hout))

namespace Edit

open Morphology.Graph

section

variable {α : Type} {g : Graph} {m source target : MorphId} {e : EdgeRef}

theorem morph_of_demand {f : Morph → Edit α} :
    Ensures (demand (·.requireMorph m) >>= f) g fun _ _ => g.morphs.contains m = true :=
  .demand_bind fun m' hm' _ _ _ => Table.contains_iff.mpr ⟨m', requireMorph_eq_ok.mp hm'⟩

theorem morph_of_reference {f : Morph → Edit α} :
    Ensures (requireReference m e >>= f) g fun _ _ => g.morphs.contains m = true :=
  .reads_bind (reads_requireReference m e) fun _ ⟨m', hm', _⟩ _ _ _ => Table.contains_iff.mpr ⟨m', hm'⟩

theorem morph_of_pair {f : Morph → Morph → Edit α} (h : source = m ∨ target = m) :
    Ensures (requireReference source e >>= fun a => demand (·.requireMorph target) >>= f a) g
      fun _ _ => g.morphs.contains m = true := by
  rcases h with rfl | rfl
  · exact morph_of_reference
  · exact .reads_bind (reads_requireReference source e) fun _ _ => morph_of_demand

theorem morph_of_owned {o : NodeId} {f : Unit → Edit α} :
    Ensures (requireOwnedBy m o >>= f) g fun _ _ => g.morphs.contains m = true :=
  .reads_bind (reads_requireOwnedBy m o) fun _ ⟨m', hm', _⟩ _ _ _ => Table.contains_iff.mpr ⟨m', hm'⟩

theorem morph_of_seed {o : NodeId} {f : List EdgeRef → Edit α} :
    Ensures (seedRefs o (some m) >>= f) g fun _ _ => g.morphs.contains m = true := by
  have hseed : Reads (seedRefs o (some m)) g fun _ => g.morphs.contains m = true := by
    refine (Reads.demand _).bind fun m' hm' => ?_
    split
    · exact Reads.pure (Table.contains_iff.mpr ⟨m', requireMorph_eq_ok.mp hm'⟩)
    · exact .refuse _
  exact .reads_bind hseed fun _ h _ _ _ => h

end

variable {g : Graph} (hf : g.Framed) {m : MorphId}

include hf

theorem morph_of_addMorph (o : NodeId) (name : Option String) :
    Ensures (addMorph o name (some m)) g fun _ _ => g.morphs.contains m = true := by
  obtain hrefused | ⟨n, -, -, hrun⟩ := addMorph_cases hf o name
  · obtain ⟨e, he⟩ := hrefused (some m)
    intro k g' hok
    rw [he] at hok
    cases hok
  · unfold Ensures
    rw [hrun (some m)]
    exact morph_of_seed

theorem morph_of_switchActive (o : NodeId) :
    Ensures (switchActive o m) g fun _ _ => g.morphs.contains m = true := by
  refine .demand_bind fun n hn => ?_
  split
  · rename_i hmorph
    obtain ⟨m', hm', -⟩ := hf.present (requireNode_eq_ok.mp hn) (by simpa [Node.hasMorph] using hmorph)
    exact fun _ _ _ => Table.contains_iff.mpr ⟨m', hm'⟩
  · refine .get_bind ?_
    split
    · exact .refuse _
    · exact .refuse _

/-- What goes through names only morphs that are there. -/
theorem morph_of_perform {c : Change} (hc : c.Mentions m) :
    Ensures c.perform g fun _ _ => g.morphs.contains m = true := by
  cases c with
  | addMorph o name seed =>
    obtain rfl : seed = some m := hc
    exact (morph_of_addMorph hf o name).map fun _ _ h => h
  | switchActive o morph =>
    obtain rfl : morph = m := hc
    exact (morph_of_switchActive hf o).bind fun _ _ h => .pure h
  | deleteMorph morph =>
    obtain rfl : morph = m := hc
    exact morph_of_demand.map fun _ _ h => h
  | copyRef edge source target => exact (morph_of_pair hc).map fun _ _ h => h
  | moveRef edge source target => exact (morph_of_pair hc).bind fun _ _ h => .pure h
  | unlistRef edge morph =>
    obtain rfl : morph = m := hc
    exact morph_of_reference.map fun _ _ h => h
  | upsertRelation morph relation =>
    obtain rfl : morph = m := hc
    exact morph_of_owned.map fun _ _ h => h
  | upsertAttribute morph a =>
    obtain rfl : morph = m := hc
    exact morph_of_owned.map fun _ _ h => h
  | _ => exact hc.elim

end Edit

namespace Session

open Morphology.Action

variable {s : Session} {m : MorphId} {op : Operation}

/-- An operation that names a morph goes through only if the morph is there. -/
theorem morph_of_operation (hf : s.graph.Framed) (hop : op.Mentions m) :
    Ensures op.perform s fun _ _ => s.graph.morphs.contains m = true := by
  have hchange {c : Change} (hc : op.change? = some c) (hmentions : c.Mentions m) :
      Ensures op.perform s fun _ _ => s.graph.morphs.contains m = true :=
    (Operation.ensures_perform hc (Edit.morph_of_perform hf hmentions)).mono fun _ _ ⟨_, _, _, h⟩ => h
  have hstate {t : Transition} (ht : s.graph.checkTransition s.settings.rejectCycles t = .ok ()) {p : StatePair}
      (hp : p ∈ t.pairs) (hpm : p.morph = m) : s.graph.morphs.contains m = true := by
    obtain ⟨n, hn, hin⟩ := Graph.hasState_iff.mp (Graph.states_of_checkTransition ht p hp)
    obtain ⟨m', hm', -⟩ := hf.present hn hin
    exact Table.contains_iff.mpr ⟨m', hpm ▸ hm'⟩
  cases op with
  | change c => exact hchange rfl hop
  | changeGuarded guard c => exact hchange rfl hop
  | createTransition draft =>
    obtain ⟨p, hp, hpm⟩ := hop
    refine Ensures.map (P := fun _ _ => s.graph.morphs.contains m = true) ?_ fun _ _ h => h
    refine (allOrNothing_editTransitions (P := fun _ => s.graph.morphs.contains m = true) fun id g hok => ?_).ensures
    exact hstate (Graph.checked_of_createTransition hok).1 hp hpm
  | updateTransition id update =>
    obtain ⟨p, hp, hpm⟩ := hop
    refine Ensures.map (P := fun _ _ => s.graph.morphs.contains m = true) ?_ fun _ _ h => h
    refine (allOrNothing_editTransitions (P := fun _ => s.graph.morphs.contains m = true) fun _ g hok => ?_).ensures
    obtain ⟨_, hupdated, -⟩ := map_eq_ok.mp hok
    obtain ⟨t, -, hchecked, -⟩ := Graph.checked_of_updateTransition hupdated
    exact hstate hchecked (TransitionUpdate.mem_pairs_apply hp) hpm
  | _ => exact hop.elim

theorem refused_of_gone (hf : s.graph.Framed) (hm : s.graph.morphs.get? m = none) (hop : op.Mentions m) :
    ∃ e s', op.perform s = .error e s' := by
  cases hrun : op.perform s with
  | error e s' => exact ⟨e, s', rfl⟩
  | ok answer s' =>
    have hthere := morph_of_operation hf hop answer s' hrun
    rw [Table.contains_eq_false.mpr hm] at hthere
    cases hthere

end Session

end Morphology
