import Morphology.Proofs.Edit.Deletion
import Morphology.Proofs.Graph.Extension
import Morphology.Proofs.Outcome

/-! Dropping references and edges of a sound graph cannot fail half way, and takes exactly what it says. Each lemma gives
the graph after the edit as the graph before it, pruned. Edges that are there can be deleted in any graph. -/

namespace Morphology

namespace Edit

open Morphology.Graph

variable {g : Graph}

theorem reads_requireReference (k : MorphId) (e : EdgeRef) :
    Reads (requireReference k e) g fun _ => g.Refers k e := by
  refine (Reads.demand _).bind fun _ _ => ?_
  refine (Reads.demand _).bind fun m hm => ?_
  split
  · rename_i he
    exact Reads.pure ⟨m, requireMorph_eq_ok.mp hm, he⟩
  · exact .refuse _

theorem reads_requireSameOwner (m : Morph) (e : EdgeRef) :
    Reads (requireSameOwner m e) g fun _ => g.edgeOwner e = some m.owner := by
  refine .get_bind ?_
  split
  · split
    · rename_i ho heq
      exact Reads.pure (by rw [ho, heq])
    · exact .refuse _
  · exact .refuse _

/-! ### Deletions of edges that are there, whatever is referred to -/

theorem sameButVersions_touchOwner (k : MorphId) :
    Succeeds (touchOwner k) g fun _ g' => g.SameButVersions g' := by
  refine .modify ?_
  split
  · exact .bump g _
  · exact .refl g

theorem sameButVersions_touchOwners (ks : List MorphId) :
    Succeeds (touchOwners ks) g fun _ g' => g.SameButVersions g' := by
  induction ks generalizing g with
  | nil => exact .pure (.refl g)
  | cons k ks ih => exact (sameButVersions_touchOwner k).bind fun _ g₁ hg₁ => ih.mono fun _ g₂ hg₂ => hg₁.trans hg₂

theorem succeeds_deleteEdge_of_hasEdge {e : EdgeRef} (he : g.hasEdge e = true) :
    Succeeds (deleteEdge e) g fun _ g' => ∀ e', e' ≠ e → g.hasEdge e' = true → g'.hasEdge e' = true := by
  obtain ⟨losers, g₁, hs⟩ : ∃ losers g₁, g.removeEdge e = .ok (losers, g₁) := by
    simp only [removeEdge, requireEdge, he, if_true]
    exact ⟨_, _, rfl⟩
  refine .demand_bind (show g.requireEdge e = .ok () from if_pos he) (.change_bind hs ?_)
  refine (sameButVersions_touchOwners losers).bind fun _ g₂ ht => .pure fun e' hne he' => ?_
  rwa [ht.hasEdge, hasEdge_eq, record?_removeEdge hs, record?_eraseEdgeRecord, if_neg hne, ← hasEdge_eq]

theorem succeeds_deleteEdges_of_hasEdge {es : List EdgeRef} (hnodup : es.Nodup)
    (hthere : ∀ e ∈ es, g.hasEdge e = true) : Succeeds (deleteEdges es) g fun _ _ => True := by
  induction es generalizing g with
  | nil => exact .pure trivial
  | cons e es ih =>
    obtain ⟨hnot, hnodup⟩ := List.nodup_cons.mp hnodup
    obtain ⟨he, hthere⟩ := List.forall_mem_cons.mp hthere
    refine (succeeds_deleteEdge_of_hasEdge he).bind fun _ g₁ hkept => ih hnodup fun e' he' => ?_
    exact hkept e' (fun heq => hnot (heq ▸ he')) (hthere e' he')

/-! ### Sound graphs -/

variable (h : g.Sound)

include h

theorem succeeds_touchNode (o : NodeId) :
    Succeeds (touchNode o) g fun _ g' => g'.Sound ∧ g.SameButVersions g' :=
  .modify ⟨h.modifyNode fun n _ => .bump n, .bump g o⟩

theorem succeeds_touchOwner (k : MorphId) :
    Succeeds (touchOwner k) g fun _ g' => g'.Sound ∧ g.SameButVersions g' := by
  refine .modify ?_
  split
  · exact ⟨h.modifyNode fun n _ => .bump n, .bump g _⟩
  · exact ⟨h, .refl g⟩

theorem succeeds_touchOwners (ks : List MorphId) :
    Succeeds (touchOwners ks) g fun _ g' => g'.Sound ∧ g.SameButVersions g' := by
  induction ks generalizing g with
  | nil => exact .pure ⟨h, .refl g⟩
  | cons k ks ih =>
    refine (succeeds_touchOwner h k).bind fun _ g₁ ⟨h₁, ht₁⟩ => ?_
    exact (ih h₁).mono fun _ g₂ ⟨h₂, ht₂⟩ => ⟨h₂, ht₁.trans ht₂⟩

theorem succeeds_removeEdge {e : EdgeRef} (he : g.hasEdge e = true) :
    Succeeds (change (·.removeEdge e)) g fun _ g' =>
      g'.Sound ∧ Pruned (fun _ e' => decide (e' = e)) (fun e' => decide (e' = e)) g g' := by
  obtain ⟨g', hrun, hc, hp⟩ := h.toCoherent.removeEdge he
  refine .change hrun ⟨h.pruned hc hp fun e' k hne hk => ⟨k, hk, hne⟩, hp⟩

theorem succeeds_deleteEdge {e : EdgeRef} (he : g.hasEdge e = true) :
    Succeeds (deleteEdge e) g fun d g' => d = { edges := [e] } ∧ g'.Sound ∧
      Pruned (fun _ e' => decide (e' = e)) (fun e' => decide (e' = e)) g g' := by
  have hthere : g.requireEdge e = .ok () := if_pos he
  refine .demand_bind hthere ?_
  refine (succeeds_removeEdge h he).bind fun losers g₁ ⟨h₁, hp⟩ => ?_
  refine (succeeds_touchOwners h₁ losers).bind fun _ g₂ ⟨h₂, ht⟩ => ?_
  exact .pure ⟨rfl, h₂, hp.touched ht.touched⟩

/-- Edges that are there, each named once, can be deleted one after the other. -/
theorem succeeds_deleteEdges {es : List EdgeRef} (hes : es.Nodup) (he : ∀ e ∈ es, g.hasEdge e = true) :
    Succeeds (deleteEdges es) g fun _ g' =>
      g'.Sound ∧ Pruned (fun _ e => decide (e ∈ es)) (fun e => decide (e ∈ es)) g g' := by
  induction es generalizing g with
  | nil => exact .pure ⟨h, (Pruned.refl g).congr (fun _ _ _ => by simp) (fun _ _ => by simp)⟩
  | cons e es ih =>
    obtain ⟨hnot, hes⟩ := List.nodup_cons.mp hes
    refine (succeeds_deleteEdge h (he e List.mem_cons_self)).bind fun _ g₁ ⟨_, h₁, hp₁⟩ => ?_
    have hleft : ∀ e' ∈ es, g₁.hasEdge e' = true := by
      intro e' he'
      have hne : e' ≠ e := by
        rintro rfl
        exact hnot he'
      exact hp₁.hasEdge_iff.mpr ⟨he e' (List.mem_cons_of_mem _ he'), by simpa using hne⟩
    refine (ih h₁ hes hleft).mono fun _ g₂ ⟨h₂, hp₂⟩ => ⟨h₂, ?_⟩
    exact (hp₁.trans hp₂).congr (fun _ _ _ => by simp) (fun _ _ => by simp)

/-- A dropped reference takes its edge along when it was the only one. -/
theorem succeeds_purge {k : MorphId} {e : EdgeRef} (hr : g.Refers k e) :
    Succeeds (purge k e) g fun gone g' => g'.Sound ∧
      (gone = true ↔ g.RefersOnly k e) ∧
      Pruned (fun l e' => decide (l = k ∧ e' = e)) (fun e' => decide (e' = e) && gone) g g' := by
  obtain ⟨left, g₁, hrun, hc₁, hp₁, hleft⟩ := h.toCoherent.unlink_eq hr
  refine .change_bind hrun ?_
  split
  · rename_i hzero
    have honly : g.RefersOnly k e := hleft.mp hzero
    have he₁ : g₁.hasEdge e = true :=
      hp₁.hasEdge_iff.mpr ⟨h.toCoherent.refers_hasEdge hr, rfl⟩
    obtain ⟨g₂, hrun₂, hc₂, hp₂⟩ := hc₁.removeEdge he₁
    have hp : Pruned (fun l e' => decide (l = k ∧ e' = e)) (fun e' => decide (e' = e) && true) g g₂ := by
      refine (hp₁.trans hp₂).congr (fun l e' hl => ?_) (fun _ _ => by simp)
      by_cases he' : e' = e
      · subst he'
        simp [honly l hl]
      · simp [he']
    refine .change_bind hrun₂ ?_
    refine .pure ⟨h.pruned hc₂ hp fun e' l hne hl => ⟨l, hl, ?_⟩, iff_of_true rfl honly, hp⟩
    simp_all
  · rename_i hmore
    have hother : ∃ l, g.Refers l e ∧ l ≠ k := by
      rw [hleft] at hmore
      push Not at hmore
      exact hmore
    have hp : Pruned (fun l e' => decide (l = k ∧ e' = e)) (fun e' => decide (e' = e) && false) g g₁ :=
      hp₁.congr (fun _ _ _ => rfl) (fun _ _ => by simp)
    refine .pure ⟨h.pruned hc₁ hp₁ fun e' l _ hl => ?_, ?_, hp⟩
    · by_cases he' : e' = e
      · obtain ⟨l', hl', hne⟩ := hother
        exact ⟨l', he' ▸ hl', by simp [hne]⟩
      · exact ⟨l, hl, by simp [he']⟩
    · obtain ⟨l', hl', hne⟩ := hother
      exact iff_of_false Bool.false_ne_true fun honly => hne (honly l' hl')

theorem succeeds_purgeAll {k : MorphId} {es : List EdgeRef} (hes : es.Nodup) (hr : ∀ e ∈ es, g.Refers k e) :
    Succeeds (purgeAll k es) g fun gone g' => g'.Sound ∧ gone.Nodup ∧
      (∀ e, e ∈ gone ↔ e ∈ es ∧ g.RefersOnly k e) ∧
      Pruned (fun l e => decide (l = k ∧ e ∈ es)) (fun e => decide (e ∈ gone)) g g' := by
  induction es generalizing g with
  | nil =>
    refine .pure ⟨h, .nil, by simp, ?_⟩
    exact (Pruned.refl g).congr (fun _ _ _ => by simp) (fun _ _ => by simp)
  | cons e es ih =>
    obtain ⟨hnot, hes⟩ := List.nodup_cons.mp hes
    refine (succeeds_purge h (hr e List.mem_cons_self)).bind fun gone₁ g₁ ⟨h₁, hgone₁, hp₁⟩ => ?_
    -- Purging one edge leaves the references to the others alone, so `RefersOnly` can still be read in `g`.
    have hother {l e'} (he' : e' ∈ es) : g₁.Refers l e' ↔ g.Refers l e' := by
      have hne : e' ≠ e := by
        rintro rfl
        exact hnot he'
      rw [hp₁.refers_iff]
      simp [hne]
    have hr₁ : ∀ e' ∈ es, g₁.Refers k e' := fun e' he' => (hother he').mpr (hr e' (List.mem_cons_of_mem _ he'))
    refine (ih h₁ hes hr₁).bind fun rest g₂ ⟨h₂, hnodup, hrest, hp₂⟩ => ?_
    have hmem (e' : EdgeRef) : e' ∈ (if gone₁ then e :: rest else rest) ↔ (e' = e ∧ gone₁ = true) ∨ e' ∈ rest := by
      cases gone₁ <;> simp
    refine .pure ⟨h₂, ?_, fun e' => ?_, ?_⟩
    · split
      · exact List.nodup_cons.mpr ⟨fun he => hnot ((hrest e).mp he).1, hnodup⟩
      · exact hnodup
    · rw [hmem, hrest, hgone₁, List.mem_cons]
      constructor
      · rintro (⟨rfl, honly⟩ | ⟨he', honly⟩)
        · exact ⟨Or.inl rfl, honly⟩
        · exact ⟨Or.inr he', fun l hl => honly l ((hother he').mpr hl)⟩
      · rintro ⟨rfl | he', honly⟩
        · exact Or.inl ⟨rfl, honly⟩
        · exact Or.inr ⟨he', fun l hl => honly l ((hother he').mp hl)⟩
    · refine (hp₁.trans hp₂).congr (fun l e' _ => ?_) (fun e' _ => ?_)
      · simp only [List.mem_cons, ← Bool.decide_or, and_or_left]
      · simp only [hmem, Bool.decide_or, Bool.decide_and, Bool.decide_eq_true]

theorem allOrNothing_unlistRef (e : EdgeRef) (k : MorphId) :
    AllOrNothing (unlistRef e k) g fun d g' => g'.Sound ∧ (Deletion.ofReference g e k).Exact d g g' := by
  refine (reads_requireReference k e).bind fun _ hr => Succeeds.allOrNothing ?_
  refine (succeeds_purge h hr).bind fun gone g₁ ⟨h₁, hgone, hp⟩ => ?_
  refine (succeeds_touchOwner h₁ k).bind fun _ g₂ ⟨h₂, ht⟩ => ?_
  refine .pure ⟨h₂, (hp.touched ht.touched).exact (fun _ => id) (fun _ => id) ?_ (fun e' => ?_) ?_ (fun e' _ => ?_) ?_⟩
  · split <;> simp
  · show _ ↔ e' = e ∧ g.RefersOnly k e
    rw [← hgone]
    cases gone <;> simp
  · rintro e' ⟨rfl, -⟩
    exact h.refers_hasEdge hr
  · show _ ↔ e' = e ∧ g.RefersOnly k e
    rw [← hgone]
    simp
  · intro l e' _
    simp [Deletion.ofReference]

theorem allOrNothing_deleteEdge (e : EdgeRef) :
    AllOrNothing (deleteEdge e) g fun d g' => g'.Sound ∧ (Deletion.ofEdge e).Exact d g g' := by
  by_cases he : g.hasEdge e = true
  · refine ((succeeds_deleteEdge h he).mono ?_).allOrNothing
    rintro d g' ⟨rfl, h', hp⟩
    refine ⟨h', hp.exact (fun _ => id) (fun _ => id) (List.nodup_singleton e) (fun e' => ?_) ?_ ?_ ?_⟩
    · simp [Deletion.ofEdge]
    · rintro e' rfl
      exact he
    · simp [Deletion.ofEdge]
    · simp [Deletion.ofEdge]
  · refine (Reads.demand _).bind fun _ hq => ?_
    exact absurd (requireEdge_eq_ok.mp hq) he

theorem allOrNothing_copyRef (e : EdgeRef) (source target : MorphId) :
    AllOrNothing (copyRef e source target) g fun _ g' => g'.Sound := by
  refine (reads_requireReference source e).bind fun _ _ => ?_
  refine (Reads.demand _).bind fun m hm => ?_
  refine (reads_requireSameOwner m e).bind fun _ ho => Succeeds.allOrNothing ?_
  obtain ⟨added, g₁, hrun, h₁, -, -⟩ := h.link_eq (requireMorph_eq_ok.mp hm) ho
  refine .change_bind hrun ?_
  split
  · refine (succeeds_touchOwner h₁ target).bind fun _ g₂ ⟨h₂, _⟩ => ?_
    exact .pure h₂
  · exact .pure h₁

theorem allOrNothing_moveRef (e : EdgeRef) (source target : MorphId) :
    AllOrNothing (moveRef e source target) g fun _ g' => g'.Sound := by
  refine (reads_requireReference source e).bind fun _ hr => ?_
  refine (Reads.demand _).bind fun m hm => ?_
  refine (reads_requireSameOwner m e).bind fun _ ho => ?_
  split
  · exact .pure h
  · rename_i hne
    obtain ⟨added, g₁, hrun₁, h₁, hl, ht⟩ := h.link_eq (requireMorph_eq_ok.mp hm) ho
    obtain ⟨left, g₂, hrun₂, hc₂, hp, -⟩ := h₁.toCoherent.unlink_eq (hl.refers hr)
    have h₂ : g₂.Sound := by
      refine h₁.pruned hc₂ hp fun e' k _ hk => ?_
      by_cases he : e' = e
      · exact ⟨target, he ▸ ht, by simpa [he] using Ne.symm hne⟩
      · exact ⟨k, hk, by simp [he]⟩
    refine Succeeds.allOrNothing (.change_bind hrun₁ (.change_bind hrun₂ ?_))
    exact (succeeds_touchOwner h₂ target).mono fun _ _ ⟨h', _⟩ => h'

end Edit

end Morphology
