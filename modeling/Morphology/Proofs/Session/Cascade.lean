import Morphology.Proofs.Session.Reachable

/-! Deletions in the sessions that runs lead to. Each takes what hangs on what is deleted and nothing else, however
the edges are shared between morphs, and says in its answer what it took. -/

namespace Morphology

namespace Session

theorem exact_of_deletion {s : Session} (h : s.Reachable) {c : Change} {x : Deletion}
    (hx : c.deletion? s.graph = some x) :
    (∀ guard outcome g', c.run guard s.graph = .ok outcome g' →
      ∃ d, outcome = .deleted d ∧ x.Exact d s.graph g') ∧
    ∀ op answer s', (op = .change c ∨ ∃ guard, op = .changeGuarded guard c) →
      Operation.perform op s = .ok answer s' → ∃ d, answer = .outcome (.deleted d) ∧ x.Exact d s.graph s'.graph := by
  have hpost {outcome : Outcome} {g' : Graph} (hp : c.Post s.graph outcome g') :
      ∃ d, outcome = .deleted d ∧ x.Exact d s.graph g' := hp.2 x hx
  have hanswer (op : Operation) (guard : Option Guard)
      (hop : op.perform s = (Answer.outcome <$> Action.edit (c.run guard)) s) {answer : Answer} {s' : Session}
      (hr : op.perform s = .ok answer s') : ∃ d, answer = .outcome (.deleted d) ∧ x.Exact d s.graph s'.graph := by
    have hrun : AllOrNothing (Answer.outcome <$> Action.edit (c.run guard)) s fun answer s' =>
        ∃ d, answer = .outcome (.deleted d) ∧ x.Exact d s.graph s'.graph := by
      refine (Action.allOrNothing_run h.sound guard c).map fun outcome s' hp => ?_
      obtain ⟨d, rfl, hd⟩ := hpost hp
      exact ⟨d, rfl, hd⟩
    exact hrun.post (hop.symm.trans hr)
  refine ⟨fun guard _ _ hr => hpost ((Change.allOrNothing_run h.sound guard c).post hr), ?_⟩
  rintro op answer s' (rfl | ⟨guard, rfl⟩) hr
  · exact hanswer _ none rfl hr
  · exact hanswer _ (if s.settings.guardVersions then some guard else none) rfl hr

/-- The crow has one more morph, with the color of the basic one. -/
def youngCrow : Session :=
  blackCrow.after (.change (.addMorph ⟨"crow"⟩ (some "young") (some ⟨"crow::morph::0"⟩)))

theorem reachable_youngCrow : youngCrow.Reachable := by
  obtain ⟨settings, schema, hspace, hrun⟩ := reachable_blackCrow
  refine ⟨settings, schema, hspace, hrun.tail ⟨_, ?_, rfl⟩⟩
  exact trivial

def goneWithCrow : Deleted where
  nodes := [⟨"crow"⟩]
  morphs := [⟨"crow::morph::0"⟩, ⟨"crow::morph::1"⟩]
  edges := [.attr ⟨"crow::color"⟩]

/-- Both morphs go with the crow, and once the color that they share. -/
theorem exact_youngCrow :
    youngCrow.Reachable ∧ ∃ g', Change.run none (.deleteNode ⟨"crow"⟩) youngCrow.graph = .ok (.deleted goneWithCrow) g' ∧
      (Deletion.ofNode youngCrow.graph ⟨"crow"⟩).Exact goneWithCrow youngCrow.graph g' := by
  have hr : ∃ g', Change.run none (.deleteNode ⟨"crow"⟩) youngCrow.graph = .ok (.deleted goneWithCrow) g' := ⟨_, rfl⟩
  obtain ⟨g', hr⟩ := hr
  obtain ⟨d, hd, hexact⟩ := (exact_of_deletion reachable_youngCrow rfl).1 none _ g' hr
  cases hd
  exact ⟨reachable_youngCrow, g', hr, hexact⟩

end Session

end Morphology
