import Mathlib.Logic.Basic
import Morphology.Proofs.Outcome

/-! Computations that overlook a part of the state. `forget` blots that part out: what overlooks it ends in the same
way, with the same answer or the same error, in any two states that differ in nothing else, and leaves two such states
behind. -/

namespace Morphology

variable {ε σ α β : Type} {forget : σ → σ}

/-- Where a computation ends, but for what is forgotten. -/
def seen (forget : σ → σ) : EStateM.Result ε σ α → EStateM.Result ε σ α
  | .ok a s => .ok a (forget s)
  | .error e s => .error e (forget s)

def Overlooks (forget : σ → σ) (x : EStateM ε σ α) : Prop :=
  ∀ s t, forget s = forget t → seen forget (x s) = seen forget (x t)

/-- The same of a step that cannot be refused. -/
def StepOverlooks (forget : σ → σ) (step : σ → α × σ) : Prop :=
  ∀ s t, forget s = forget t → Prod.map id forget (step s) = Prod.map id forget (step t)

theorem StepOverlooks.intro {step : σ → α × σ} (h : ∀ s, step (forget s) = Prod.map id forget (step s)) :
    StepOverlooks forget step := by
  intro s t hst
  rw [← h, ← h, hst]

variable {x : EStateM ε σ α}

namespace Overlooks

theorem pure (a : α) : Overlooks forget (Pure.pure a : EStateM ε σ α) :=
  fun _ _ h => congrArg (EStateM.Result.ok a) h

theorem throw (e : ε) : Overlooks forget (MonadExcept.throw e : EStateM ε σ α) :=
  fun _ _ h => congrArg (EStateM.Result.error e) h

/-- From two states that look alike it goes through twice or is refused twice. -/
theorem ends_alike (hx : Overlooks forget x) {s t : σ} (hst : forget s = forget t) :
    (∃ a s' t', x s = .ok a s' ∧ x t = .ok a t' ∧ forget s' = forget t') ∨
      ∃ e s' t', x s = .error e s' ∧ x t = .error e t' ∧ forget s' = forget t' := by
  have hends := hx s t hst
  cases hs : x s <;> cases ht : x t <;> rw [hs, ht] at hends
  · obtain ⟨rfl, hst'⟩ := EStateM.Result.ok.inj hends
    exact Or.inl ⟨_, _, _, rfl, rfl, hst'⟩
  · cases hends
  · cases hends
  · obtain ⟨rfl, hst'⟩ := EStateM.Result.error.inj hends
    exact Or.inr ⟨_, _, _, rfl, rfl, hst'⟩

theorem bind {f : α → EStateM ε σ β} (hx : Overlooks forget x) (hf : ∀ a, Overlooks forget (f a)) :
    Overlooks forget (x >>= f) := by
  intro s t hst
  rcases hx.ends_alike hst with ⟨a, s', t', hs, ht, hst'⟩ | ⟨e, s', t', hs, ht, hst'⟩
  · rw [bind_ok hs, bind_ok ht]
    exact hf a s' t' hst'
  · rw [bind_error hs, bind_error ht]
    exact congrArg (EStateM.Result.error e) hst'

theorem map {φ : α → β} (hx : Overlooks forget x) : Overlooks forget (φ <$> x) := by
  rw [map_eq_pure_bind]
  exact hx.bind fun a => pure (φ a)

/-- The state that is read may be written back. -/
theorem read_bind {f : σ → EStateM ε σ β}
    (hf : ∀ s t, forget s = forget t → seen forget (f s s) = seen forget (f t t)) : Overlooks forget (get >>= f) := hf

/-- Nothing that is forgotten is read. -/
theorem get_bind {f : σ → EStateM ε σ β} (hread : ∀ s, f (forget s) = f s) (hf : ∀ s, Overlooks forget (f s)) :
    Overlooks forget (get >>= f) := by
  refine read_bind fun s t hst => ?_
  have hfst : f s = f t := by rw [← hread s, hst, hread t]
  rw [hfst]
  exact hf t s t hst

/-- Nothing but what is forgotten is written. -/
theorem modify_forgotten {step : σ → σ} (hstep : ∀ s, forget (step s) = forget s) :
    Overlooks forget (modify step : EStateM ε σ PUnit) := by
  intro s t hst
  show EStateM.Result.ok _ (forget (step s)) = EStateM.Result.ok _ (forget (step t))
  rw [hstep, hstep, hst]

theorem modify {step : σ → σ} (hstep : ∀ s, forget (step s) = step (forget s)) :
    Overlooks forget (modify step : EStateM ε σ PUnit) := by
  intro s t hst
  show EStateM.Result.ok _ (forget (step s)) = EStateM.Result.ok _ (forget (step t))
  rw [hstep, hstep, hst]

theorem modifyGet {step : σ → α × σ} (hstep : StepOverlooks forget step) :
    Overlooks forget (modifyGet step : EStateM ε σ α) := by
  intro s t hst
  obtain ⟨hanswer, hstate⟩ := Prod.ext_iff.mp (hstep s t hst)
  show EStateM.Result.ok (step s).1 (forget (step s).2) = EStateM.Result.ok (step t).1 (forget (step t).2)
  exact congrArg₂ EStateM.Result.ok hanswer hstate

section Edit

variable {forget : Graph → Graph} {part : α → α} {f : α → Edit β}

theorem refuse (e : ReferenceError) : Overlooks forget (Edit.refuse e : Edit α) := Overlooks.throw (EditError.reference e)

/-- Of an answer with something forgotten in it no more than the rest is read. -/
theorem change_part_bind {step : Graph → Except ReferenceError (α × Graph)}
    (hstep : ∀ g, step (forget g) = (step g).map (Prod.map part forget)) (hread : ∀ a, f (part a) = f a)
    (hf : ∀ a, Overlooks forget (f a)) : Overlooks forget (Edit.change step >>= f) := by
  intro g g' hgg
  have hends : (step g).map (Prod.map part forget) = (step g').map (Prod.map part forget) := by
    rw [← hstep, hgg, hstep]
  show seen forget (EStateM.bind (Edit.change step) f g) = seen forget (EStateM.bind (Edit.change step) f g')
  unfold EStateM.bind Edit.change
  cases hg : step g <;> cases hg' : step g' <;> rw [hg, hg'] at hends
  · exact congrArg₂ EStateM.Result.error (congrArg EditError.reference (Except.error.inj hends)) hgg
  · cases hends
  · cases hends
  · rename_i p p'
    obtain ⟨hanswer, hstate⟩ := Prod.ext_iff.mp (Except.ok.inj hends)
    have hf' : f p.1 = f p'.1 := (hread p.1).symm.trans ((congrArg f hanswer).trans (hread p'.1))
    show seen forget (f p.1 p.2) = seen forget (f p'.1 p'.2)
    rw [hf']
    exact hf p'.1 p.2 p'.2 hstate

theorem change_bind {step : Graph → Except ReferenceError (α × Graph)}
    (hstep : ∀ g, step (forget g) = (step g).map (Prod.map id forget)) (hf : ∀ a, Overlooks forget (f a)) :
    Overlooks forget (Edit.change step >>= f) :=
  change_part_bind hstep (fun _ => rfl) hf

theorem demand_part_bind {question : Graph → Except ReferenceError α}
    (hquestion : ∀ g, question (forget g) = (question g).map part) (hread : ∀ a, f (part a) = f a)
    (hf : ∀ a, Overlooks forget (f a)) : Overlooks forget (Edit.demand question >>= f) := by
  have hdemand : Edit.demand question = Edit.change fun g => (question g).map fun a => (a, g) := by
    funext g
    simp only [Edit.demand, Edit.change]
    cases question g <;> rfl
  rw [hdemand]
  refine change_part_bind (fun g => ?_) hread hf
  rw [hquestion]
  cases question g <;> rfl

theorem demand_bind {question : Graph → Except ReferenceError α} (hquestion : ∀ g, question (forget g) = question g)
    (hf : ∀ a, Overlooks forget (f a)) : Overlooks forget (Edit.demand question >>= f) := by
  have hmap (x : Except ReferenceError α) : x = x.map id := by cases x <;> rfl
  exact demand_part_bind (fun g => (hquestion g).trans (hmap _)) (fun _ => rfl) hf

end Edit

end Overlooks

end Morphology
