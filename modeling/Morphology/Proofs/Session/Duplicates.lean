import Morphology.Proofs.Session.Transitions
import Morphology.Proofs.Transition.Titles

/-! Which new transitions are refused as duplicates. Whatever the operations before, the ids of the transitions that are
stored are made from their names and adjectives, so a new one is a duplicate where it shares its title with one that is
there. Where titles are clear, that is one with the same name and adjective. -/

namespace Morphology

namespace Session

structure Titled (s : Session) : Prop where
  framed : s.graph.Framed
  titled : s.graph.TransitionsTitled

namespace Titled

variable {s : Session} (h : s.Titled)

include h

theorem after (op : Operation) : (s.after op).Titled := by
  refine ⟨framed_after h.framed op, ?_⟩
  by_cases hop : op.EditsTransitions
  · exact after_of_leaves (leaves_of_editsTransitions hop h.titled (fun _ _ => h.titled.putTransition rfl)
      (fun _ _ update ht _ => h.titled.update ht update) h.titled.erase)
  · unfold Graph.TransitionsTitled
    rw [transitions_after h.framed hop]
    exact h.titled

end Titled

theorem titled_fresh (settings : Settings) (schema : Schema) : (fresh settings schema).Titled where
  framed := Graph.framed_empty settings.space
  titled _ _ ht := nomatch ht

theorem Attainable.titled {s : Session} (h : s.Attainable) : s.Titled := by
  obtain ⟨settings, schema, hrun⟩ := h
  exact RunWhere.invariant hrun (titled_fresh settings schema) fun _ op h _ => h.after op

/-- Another transition is told to have the name and adjective already. -/
def RefusesDuplicate (s : Session) (draft : TransitionDraft) : Prop :=
  ∃ d s', (Operation.createTransition draft).perform s = .error (.transition (.duplicate d)) s'

theorem refusesDuplicate_iff {s : Session} {draft : TransitionDraft} : s.RefusesDuplicate draft ↔
    ∃ d, s.graph.createTransition s.settings.rejectCycles draft = .error (.duplicate d) := by
  have hperform : (Operation.createTransition draft).perform s = EStateM.map Answer.transition
      (Action.editTransitions fun rejectCycles g => g.createTransition rejectCycles draft) s := rfl
  rw [RefusesDuplicate, hperform, EStateM.map, Action.editTransitions]
  cases s.graph.createTransition s.settings.rejectCycles draft <;> simp

/-- A new transition is refused as a duplicate just where its title is that of one which is there, but for blanks and
low lines. Where the titles are clear, that one has the same name and the same adjective, or neither has any. -/
theorem duplicate_iff_sharesTitle {s : Session} (h : s.Attainable) (draft : TransitionDraft)
    (hname : Text.collapse draft.name ≠ "") :
    (s.RefusesDuplicate draft ↔ ∃ t ∈ s.graph.transitions.values, t.key.SharesTitle draft.key) ∧
      (draft.key.Clear → (∀ t ∈ s.graph.transitions.values, t.key.Clear) →
        (s.RefusesDuplicate draft ↔ ∃ t ∈ s.graph.transitions.values, t.key = draft.key)) := by
  have hshared : s.RefusesDuplicate draft ↔ ∃ t ∈ s.graph.transitions.values, t.key.SharesTitle draft.key := by
    rw [refusesDuplicate_iff, Graph.createTransition_duplicate_iff hname, h.titled.titled.contains_iff]
  refine ⟨hshared, fun hclear hall => hshared.trans ?_⟩
  constructor
  · rintro ⟨t, ht, htitle⟩
    exact ⟨t, ht, (hall t ht).eq_of_sharesTitle hclear htitle⟩
  · rintro ⟨t, ht, hkey⟩
    exact ⟨t, ht, congrArg (fun k : NameKey => Chars.underscored k.title) hkey⟩

def lateMoult : TransitionDraft := { name := "moult", adjective := some "late" }

/-- A session in which birds moult late. -/
def moulting : Session := (fresh {} ⟨{}, {}⟩).after (.createTransition lateMoult)

/-- Moulting late in other letters is refused, moulting at any time is not; late::moult is refused, though there is no
transition with such a name. -/
theorem duplicate_moulting : moulting.Attainable ∧
    moulting.RefusesDuplicate { name := " MOULT", adjective := some "Late" } ∧
    ¬moulting.RefusesDuplicate { name := "moult" } ∧ moulting.RefusesDuplicate { name := "late::moult" } ∧
    ¬∃ t ∈ moulting.graph.transitions.values, t.name = "late::moult" := by
  have hattainable : moulting.Attainable := ⟨{}, ⟨{}, {}⟩, .single ⟨_, trivial, rfl⟩⟩
  have hstored : moulting.graph.transitions.values = [lateMoult.transition] := by decide +kernel
  have hlate : NameKey.Clear ⟨"moult", some "late"⟩ := ⟨by decide, by decide, by decide⟩
  have hmoult : NameKey.Clear ⟨"moult", none⟩ := ⟨by decide, by decide, by decide⟩
  have hkey : lateMoult.transition.key = ⟨"moult", some "late"⟩ := by decide +kernel
  obtain ⟨hshared, -⟩ := duplicate_iff_sharesTitle hattainable { name := "late::moult" } (by decide +kernel)
  obtain ⟨-, hsame⟩ := duplicate_iff_sharesTitle hattainable { name := " MOULT", adjective := some "Late" }
    (by decide +kernel)
  obtain ⟨-, hother⟩ := duplicate_iff_sharesTitle hattainable { name := "moult" } (by decide +kernel)
  have hdrafts : TransitionDraft.key { name := " MOULT", adjective := some "Late" } = ⟨"moult", some "late"⟩ ∧
      TransitionDraft.key { name := "moult" } = ⟨"moult", none⟩ ∧
      TransitionDraft.key { name := "late::moult" } = ⟨"late::moult", none⟩ := by decide +kernel
  rw [hdrafts.1] at hsame
  rw [hdrafts.2.1] at hother
  rw [hdrafts.2.2] at hshared
  simp only [hstored, List.mem_singleton, exists_eq_left, forall_eq, hkey] at hshared hsame hother ⊢
  exact ⟨hattainable, (hsame hlate hlate).mpr trivial, fun h => absurd ((hother hmoult hlate).mp h) (by decide),
    hshared.mpr (by decide), by decide +kernel⟩

end Session

end Morphology
