import Morphology.Proofs.Edit.References

/-! Updating and deleting nodes. Before a node goes its morphs are emptied and the edges at it are removed; then
nothing is left that refers to it. -/

namespace Morphology

theorem NodeUpdate.sameFrame (update : NodeUpdate) (n : Node) : n.SameFrame (update.apply n).bump :=
  ⟨rfl, rfl, rfl, rfl, rfl, fun _ => Or.inl⟩

namespace Edit

open Morphology.Graph

variable {g : Graph}

theorem reads_requireFreeNode (o : NodeId) : Reads (requireFreeNode o) g fun _ => g.FreeNode o := by
  refine .get_bind ?_
  split
  · exact .refuse _
  · rename_i hnone
    exact Reads.pure fun id t ht p hp hpo => List.find?_eq_none.mp hnone t (Table.mem_values.mpr ⟨id, ht⟩)
      (List.any_eq_true.mpr ⟨p, hp, beq_iff_eq.mpr hpo⟩)

variable (h : g.Sound)

include h

theorem allOrNothing_updateNode (o : NodeId) (update : NodeUpdate) :
    AllOrNothing (updateNode o update) g fun _ g' => g'.Sound :=
  (Reads.demand _).bind fun _ _ => Succeeds.allOrNothing (.modify (h.modifyNode fun n _ => update.sameFrame n))

theorem succeeds_purgeMorphs (ks : List MorphId) :
    Succeeds (purgeMorphs ks) g fun gone g' => g'.Sound ∧ gone.Nodup ∧
      (∀ e, e ∈ gone ↔ g.hasEdge e = true ∧ ∀ l, g.Refers l e → l ∈ ks) ∧
      Pruned (fun l _ => decide (l ∈ ks)) (fun e => decide (e ∈ gone)) g g' := by
  induction ks generalizing g with
  | nil =>
    have hnone (e : EdgeRef) : ¬(g.hasEdge e = true ∧ ∀ l, g.Refers l e → l ∈ []) := by
      rintro ⟨he, hno⟩
      obtain ⟨k, hk⟩ := h.covered e he
      exact absurd (hno k hk) List.not_mem_nil
    exact .pure ⟨h, .nil, fun e => iff_of_false List.not_mem_nil (hnone e), by simpa using Pruned.refl g⟩
  | cons k ks ih =>
    let es : List EdgeRef := ((g.morphs.get? k).map (·.refs)).getD []
    have hes : es.Nodup ∧ ∀ e, e ∈ es ↔ g.Refers k e := by
      cases hm : g.morphs.get? k with
      | none => simp [es, Refers, hm]
      | some m =>
        refine ⟨by simpa [es, hm] using (h.morph hm).2.nodup_refs, fun e => ?_⟩
        simp [es, hm, Refers, Morph.mem_refs]
    obtain ⟨hnodup, hrefers⟩ := hes
    refine .get_bind ?_
    refine (succeeds_purgeAll h hnodup fun e he => (hrefers e).mp he).bind ?_
    rintro gone₁ g₁ ⟨h₁, hnodup₁, hgone₁, hp₁⟩
    refine (ih h₁).bind ?_
    rintro rest g₂ ⟨h₂, hnodup₂, hrest, hp₂⟩
    refine .pure ⟨h₂, List.nodup_append'.mpr ⟨hnodup₁, hnodup₂, fun e he₁ he₂ => ?_⟩, fun e => ?_, ?_⟩
    · simpa [he₁] using (hp₁.hasEdge_iff.mp ((hrest e).mp he₂).1).2
    · rw [List.mem_append, hrest, hp₁.hasEdge_iff]
      constructor
      · rintro (he | ⟨⟨he, -⟩, hall⟩)
        · obtain ⟨hin, honly⟩ := (hgone₁ e).mp he
          exact ⟨h.refers_hasEdge ((hrefers e).mp hin), fun l hl => List.mem_cons.mpr (Or.inl (honly l hl))⟩
        · refine ⟨he, fun l hl => ?_⟩
          by_cases hlk : l = k
          · exact List.mem_cons.mpr (Or.inl hlk)
          · exact List.mem_cons_of_mem _ (hall l (hp₁.refers_iff.mpr ⟨hl, by simp [hlk]⟩))
      · rintro ⟨he, hall⟩
        by_cases hgone : e ∈ gone₁
        · exact Or.inl hgone
        · refine Or.inr ⟨⟨he, by simpa using hgone⟩, fun l hl => ?_⟩
          obtain ⟨hl, hkept⟩ := hp₁.refers_iff.mp hl
          rcases List.mem_cons.mp (hall l hl) with rfl | hin
          · simp [(hrefers e).mpr hl] at hkept
          · exact hin
    · refine (hp₁.trans hp₂).congr (fun l e hl => ?_) (fun e _ => by simp)
      by_cases hlk : l = k
      · simp [hlk, (hrefers e).mpr (hlk ▸ hl)]
      · simp [hlk]

theorem succeeds_removeEdges (es : List EdgeRef) :
    Succeeds (removeEdges es) g fun removed g' => g'.Sound ∧ removed.Nodup ∧
      (∀ e, e ∈ removed ↔ e ∈ es ∧ g.hasEdge e = true) ∧
      Pruned (fun _ e => decide (e ∈ es)) (fun e => decide (e ∈ es)) g g' := by
  induction es generalizing g with
  | nil => exact .pure ⟨h, .nil, by simp, (Pruned.refl g).congr (fun _ _ _ => by simp) (fun _ _ => by simp)⟩
  | cons e es ih =>
    refine .get_bind ?_
    split
    · rename_i he
      refine (succeeds_removeEdge h he).bind fun losers g₁ ⟨h₁, hp₁⟩ => ?_
      refine (succeeds_touchOwners h₁ losers).bind fun _ g₂ ⟨h₂, ht⟩ => ?_
      have hp₂ := hp₁.touched ht.touched
      refine (ih h₂).bind fun removed g₃ ⟨h₃, hnodup, hremoved, hp₃⟩ =>
        .pure ⟨h₃, List.nodup_cons.mpr ⟨fun hin => ?_, hnodup⟩, fun e' => ?_, ?_⟩
      · simpa using (hp₂.hasEdge_iff.mp ((hremoved e).mp hin).2).2
      · rw [List.mem_cons, hremoved, hp₂.hasEdge_iff, List.mem_cons]
        by_cases he' : e' = e
        · simp [he', he]
        · simp [he']
      · exact (hp₂.trans hp₃).congr (fun _ _ _ => by simp) (fun _ _ => by simp)
    · rename_i he
      refine (ih h).mono fun removed g₁ ⟨h₁, hnodup, hremoved, hp⟩ => ⟨h₁, hnodup, fun e' => ?_, ?_⟩
      · rw [hremoved, List.mem_cons]
        constructor
        · exact fun ⟨hin, he'⟩ => ⟨Or.inr hin, he'⟩
        · rintro ⟨rfl | hin, he'⟩
          · exact absurd he' he
          · exact ⟨hin, he'⟩
      · have hne {e'} (he' : g.hasEdge e' = true) : e' ≠ e := by
          rintro rfl
          exact he he'
        exact hp.congr (fun l e' hl => by simp [hne (h.refers_hasEdge hl)]) (fun e' he' => by simp [hne he'])

theorem mem_edgesAt {o : NodeId} {e : EdgeRef} : e ∈ edgesAt g o ↔ g.EdgeAt o e := by
  cases e with
  | relation k => simp [edgesAt, EdgeAt, h.outgoing, h.incoming, and_or_left, exists_or]
  | attr k =>
    simp only [edgesAt, EdgeAt, List.mem_append, List.mem_map, List.mem_filter, Table.mem_values]
    constructor
    · rintro (⟨_, _, he⟩ | ⟨a, ⟨⟨k', ha⟩, ho⟩, he⟩)
      · cases he
      · cases he
        obtain ⟨rfl, -, -⟩ := h.attr ha
        exact ⟨a, ha, by simpa using ho⟩
    · rintro ⟨a, ha, ho⟩
      obtain ⟨rfl, -, -⟩ := h.attr ha
      exact Or.inr ⟨a, ⟨⟨a.id, ha⟩, by simpa using ho⟩, rfl⟩

theorem allOrNothing_deleteNode (o : NodeId) :
    AllOrNothing (deleteNode o) g fun d g' => g'.Sound ∧ (Deletion.ofNode g o).Exact d g g' := by
  refine (Reads.demand _).bind fun n hn => ?_
  rw [requireNode_eq_ok] at hn
  refine (reads_requireFreeNode o).bind fun _ _ => Succeeds.allOrNothing ?_
  refine (succeeds_purgeMorphs h n.morphs).bind fun purged g₁ ⟨h₁, hnodup₁, hpurged, hp₁⟩ => .get_bind ?_
  refine (succeeds_removeEdges h₁ (edgesAt g₁ o)).bind fun removed g₂ ⟨h₂, hnodup₂, hremoved, hp₂⟩ => ?_
  obtain ⟨n', hn', hsame⟩ := (hp₁.trans hp₂).node hn
  have hmorphs : n'.morphs = n.morphs := by
    simpa [Node.unversioned] using congrArg Node.morphs hsame
  have hfree : ∀ k ∈ n'.morphs, ∀ e, ¬g₂.Refers k e := by
    intro k hk e hr
    obtain ⟨hr₁, -⟩ := hp₂.refers_iff.mp hr
    obtain ⟨-, hkept⟩ := hp₁.refers_iff.mp hr₁
    rw [hmorphs] at hk
    simp [hk] at hkept
  have hnone : ∀ e, ¬g₂.EdgeAt o e := by
    intro e he
    have hgone := (hp₂.hasEdge_iff.mp (hasEdge_of_edgeAt he)).2
    have hat := (mem_edgesAt h₁).mpr ((hp₂.edgeAt_kept hgone).mp he)
    simp [hat] at hgone
  have hkept {e : EdgeRef} (he : e ∉ purged) : g₁.EdgeAt o e ↔ g.EdgeAt o e :=
    hp₁.edgeAt_kept (by simpa using he)
  have hes (e : EdgeRef) : e ∈ purged ++ removed ↔ g.EdgeAt o e := by
    rw [List.mem_append, hremoved, mem_edgesAt h₁]
    by_cases he : e ∈ purged
    · obtain ⟨hin, hall⟩ := (hpurged e).mp he
      obtain ⟨l, hl⟩ := h.covered e hin
      obtain ⟨m, hm, hme⟩ := hl
      have ho : m.owner = o := (h.framed.mem_morphs_iff hn hm).mp (hall l ⟨m, hm, hme⟩)
      exact iff_of_true (Or.inl he) (edgeAt_of_owner (ho ▸ h.owned hm hme))
    · rw [← hkept he]
      exact ⟨fun hin => (hin.resolve_left he).1, fun hat => Or.inr ⟨hat, hasEdge_of_edgeAt hat⟩⟩
  refine .change_bind (removeNode_eq hn') (.pure ⟨?_, ?_⟩)
  · refine h₂.withoutNode hn' hfree (fun k r hr => ?_) fun k a ha ho => hnone (.attr k) ⟨a, ha, ho⟩
    exact not_or.mp fun ho => hnone (.relation k) ⟨r, hr, ho⟩
  · have hp : Pruned (fun k e => decide (k ∈ n.morphs) || decide (e ∈ edgesAt g₁ o))
        (fun e => decide (e ∈ purged ++ removed)) g g₂ := by
      refine (hp₁.trans hp₂).congr (fun _ _ _ => rfl) fun e _ => Bool.eq_iff_iff.mpr ?_
      have hat : e ∈ edgesAt g₁ o → g₁.hasEdge e = true := fun hin => hasEdge_of_edgeAt ((mem_edgesAt h₁).mp hin)
      simp only [Bool.or_eq_true, decide_eq_true_eq, List.mem_append, hremoved]
      exact or_congr_right ⟨fun hin => ⟨hin, hat hin⟩, And.left⟩
    refine h.exact_deleteNode hn hp hmorphs (List.nodup_append'.mpr ⟨hnodup₁, hnodup₂, fun e he₁ he₂ => ?_⟩) hes
      fun k e hk hr => ?_
    · simpa [he₁] using (hp₁.hasEdge_iff.mp ((hremoved e).mp he₂).2).2
    · have he : e ∉ purged := fun he => hk (((hpurged e).mp he).2 k hr)
      simp [hk, mem_edgesAt h₁, hkept he]

end Edit

end Morphology
