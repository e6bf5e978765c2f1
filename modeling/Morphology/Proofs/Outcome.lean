import Morphology.Edit.Basic

/-! How a computation with state ends. `Succeeds` says that it goes through, and what then holds of its answer
and of the state; `AllOrNothing` lets it be refused as well, provided the state is then the one it started from;
`Reads` is for what leaves the state alone however it ends, and `Leaves` for what holds of the state where it ends,
refused or not. `Ensures` says nothing of what is refused, and `Refuses` of nothing else. -/

namespace Morphology

theorem bind_eq_ok {ε α β : Type} {x : Except ε α} {f : α → Except ε β} {b : β} :
    (x >>= f) = .ok b ↔ ∃ a, x = .ok a ∧ f a = .ok b := by
  cases x with
  | error e => simp [bind, Except.bind]
  | ok a => simp [bind, Except.bind]

theorem map_eq_ok {ε α β : Type} {x : Except ε α} {f : α → β} {b : β} :
    x.map f = .ok b ↔ ∃ a, x = .ok a ∧ f a = b := by
  cases x <;> simp [Except.map]

variable {ε σ α β : Type} {x : EStateM ε σ α} {f : α → EStateM ε σ β} {s : σ} {P : α → σ → Prop}
  {Q : β → σ → Prop} {ans : α → Prop}

theorem bind_ok {a : α} {s' : σ} (h : x s = .ok a s') : (x >>= f) s = f a s' := by
  show EStateM.bind x f s = _
  simp only [EStateM.bind, h]

theorem bind_error {e : ε} {s' : σ} (h : x s = .error e s') : (x >>= f) s = .error e s' := by
  show EStateM.bind x f s = _
  simp only [EStateM.bind, h]

def Succeeds (x : EStateM ε σ α) (s : σ) (post : α → σ → Prop) : Prop :=
  ∃ a s', x s = .ok a s' ∧ post a s'

def AllOrNothing (x : EStateM ε σ α) (s : σ) (post : α → σ → Prop) : Prop :=
  Succeeds x s post ∨ ∃ e, x s = .error e s

def Reads (x : EStateM ε σ α) (s : σ) (ans : α → Prop) : Prop :=
  AllOrNothing x s fun a s' => s' = s ∧ ans a

def Leaves (x : EStateM ε σ α) (s : σ) (I : σ → Prop) : Prop :=
  match x s with
  | .ok _ s' => I s'
  | .error _ s' => I s'

def Ensures (x : EStateM ε σ α) (s : σ) (post : α → σ → Prop) : Prop :=
  ∀ a s', x s = .ok a s' → post a s'

def Refuses (x : EStateM ε σ α) (s : σ) (I : σ → Prop) : Prop :=
  ∀ e s', x s = .error e s' → I s'

namespace Succeeds

theorem intro {a : α} {s' : σ} (hx : x s = .ok a s') (h : P a s') : Succeeds x s P :=
  ⟨a, s', hx, h⟩

theorem pure {a : α} (h : P a s) : Succeeds (Pure.pure a : EStateM ε σ α) s P :=
  intro rfl h

theorem mono {P' : α → σ → Prop} (h : Succeeds x s P) (hp : ∀ a s', P a s' → P' a s') : Succeeds x s P' := by
  obtain ⟨a, s', hx, ha⟩ := h
  exact intro hx (hp a s' ha)

theorem bind (h : Succeeds x s P) (hf : ∀ a s', P a s' → Succeeds (f a) s' Q) : Succeeds (x >>= f) s Q := by
  obtain ⟨a, s', hx, ha⟩ := h
  obtain ⟨b, s'', hfa, hb⟩ := hf a s' ha
  exact ⟨b, s'', (bind_ok hx).trans hfa, hb⟩

theorem reads_bind (h : Succeeds x s fun _ s' => s' = s) (hf : ∀ a, Succeeds (f a) s Q) : Succeeds (x >>= f) s Q :=
  h.bind fun a s' hs => by
    subst hs
    exact hf a

theorem map {φ : α → β} (h : Succeeds x s P) (hq : ∀ a s', P a s' → Q (φ a) s') : Succeeds (φ <$> x) s Q := by
  rw [map_eq_pure_bind]
  exact h.bind fun a s' ha => .pure (hq a s' ha)

theorem of_bind (h : Succeeds (x >>= f) s Q) : Succeeds x s fun a s' => Succeeds (f a) s' Q := by
  obtain ⟨b, s'', hrun, hb⟩ := h
  cases hx : x s with
  | ok a s' =>
    rw [bind_ok hx] at hrun
    exact ⟨a, s', hx, b, s'', hrun, hb⟩
  | error e s' =>
    rw [bind_error hx] at hrun
    cases hrun

theorem mapM_nil {f : α → EStateM ε σ β} {P : List β → σ → Prop} (h : P [] s) : Succeeds ([].mapM f) s P := pure h

theorem mapM_cons {f : α → EStateM ε σ β} {a : α} {as : List α} {P : List β → σ → Prop}
    (h : Succeeds (f a) s fun b s' => Succeeds (as.mapM f) s' fun bs s'' => P (b :: bs) s'') :
    Succeeds ((a :: as).mapM f) s P := by
  rw [List.mapM_cons]
  exact h.bind fun b s' hrest => hrest.bind fun bs s'' hp => pure hp

theorem get_bind {f : σ → EStateM ε σ β} (h : Succeeds (f s) s Q) : Succeeds (get >>= f) s Q := h

theorem set_bind {s' : σ} {f : PUnit → EStateM ε σ β} (h : Succeeds (f ⟨⟩) s' Q) :
    Succeeds (set s' >>= f) s Q := h

theorem modify {step : σ → σ} {P : PUnit → σ → Prop} (h : P ⟨⟩ (step s)) :
    Succeeds (modify step : EStateM ε σ PUnit) s P :=
  intro rfl h

theorem modifyGet {step : σ → α × σ} (h : P (step s).1 (step s).2) :
    Succeeds (modifyGet step : EStateM ε σ α) s P :=
  intro rfl h

theorem change {step : Graph → Except ReferenceError (α × Graph)} {g g' : Graph} {a : α}
    {P : α → Graph → Prop} (hs : step g = .ok (a, g')) (h : P a g') : Succeeds (Edit.change step) g P := by
  refine ⟨a, g', ?_, h⟩
  simp only [Edit.change, hs]

theorem change_bind {step : Graph → Except ReferenceError (α × Graph)} {g g' : Graph} {a : α}
    {f : α → Edit β} {Q : β → Graph → Prop} (hs : step g = .ok (a, g')) (h : Succeeds (f a) g' Q) :
    Succeeds (Edit.change step >>= f) g Q := by
  have hx : Succeeds (Edit.change step) g fun b g'' => b = a ∧ g'' = g' := change hs ⟨rfl, rfl⟩
  refine hx.bind fun b g'' ⟨hb, hg⟩ => ?_
  rw [hb, hg]
  exact h

theorem demand_bind {question : Graph → Except ReferenceError α} {g : Graph} {a : α} {f : α → Edit β}
    {Q : β → Graph → Prop} (hq : question g = .ok a) (h : Succeeds (f a) g Q) :
    Succeeds (Edit.demand question >>= f) g Q := by
  have hx : Succeeds (Edit.demand question) g fun b g' => b = a ∧ g' = g := by
    refine ⟨a, g, ?_, rfl, rfl⟩
    simp only [Edit.demand, hq]
  refine hx.bind fun b g' ⟨hb, hg⟩ => ?_
  rw [hb, hg]
  exact h

theorem allOrNothing (h : Succeeds x s P) : AllOrNothing x s P := Or.inl h

end Succeeds

namespace AllOrNothing

theorem throw (e : ε) : AllOrNothing (MonadExcept.throw e : EStateM ε σ α) s P := Or.inr ⟨e, rfl⟩

theorem throw_bind (e : ε) : AllOrNothing ((MonadExcept.throw e : EStateM ε σ α) >>= f) s Q := Or.inr ⟨e, rfl⟩

theorem refuse {g : Graph} {P : α → Graph → Prop} (e : ReferenceError) :
    AllOrNothing (Edit.refuse e : Edit α) g P := throw _

theorem pure {a : α} (h : P a s) : AllOrNothing (Pure.pure a : EStateM ε σ α) s P :=
  (Succeeds.pure h).allOrNothing

theorem mono {P' : α → σ → Prop} (h : AllOrNothing x s P) (hp : ∀ a s', P a s' → P' a s') :
    AllOrNothing x s P' := by
  rcases h with h | h
  · exact Or.inl (h.mono hp)
  · exact Or.inr h

theorem get_bind {f : σ → EStateM ε σ β} (h : AllOrNothing (f s) s Q) : AllOrNothing (get >>= f) s Q := h

/-- What comes after a change of the state must go through. -/
theorem bind (h : AllOrNothing x s P) (hf : ∀ a s', P a s' → Succeeds (f a) s' Q) :
    AllOrNothing (x >>= f) s Q := by
  rcases h with h | ⟨e, hx⟩
  · exact (h.bind hf).allOrNothing
  · exact Or.inr ⟨e, bind_error hx⟩

theorem map {φ : α → β} (h : AllOrNothing x s P) (hq : ∀ a s', P a s' → Q (φ a) s') :
    AllOrNothing (φ <$> x) s Q := by
  rw [map_eq_pure_bind]
  exact h.bind fun a s' ha => .pure (hq a s' ha)

theorem unchanged (h : AllOrNothing x s P) {e : ε} {s' : σ} (hx : x s = .error e s') : s' = s := by
  rcases h with ⟨a, s'', hok, -⟩ | ⟨e', he⟩
  · rw [hok] at hx
    cases hx
  · rw [he] at hx
    cases hx
    rfl

theorem post (h : AllOrNothing x s P) {a : α} {s' : σ} (hx : x s = .ok a s') : P a s' := by
  rcases h with ⟨a', s'', hok, ha⟩ | ⟨e', he⟩
  · rw [hok] at hx
    cases hx
    exact ha
  · rw [he] at hx
    cases hx

end AllOrNothing

namespace Reads

theorem pure {a : α} (h : ans a) : Reads (Pure.pure a : EStateM ε σ α) s ans := AllOrNothing.pure ⟨rfl, h⟩

theorem demand {g : Graph} (question : Graph → Except ReferenceError α) :
    Reads (Edit.demand question) g fun a => question g = .ok a := by
  cases hq : question g with
  | ok a => exact Or.inl ⟨a, g, by simp only [Edit.demand, hq], rfl, rfl⟩
  | error e => exact Or.inr ⟨.reference e, by simp only [Edit.demand, hq]⟩

/-- Nothing is lost when what comes after a question is refused. -/
theorem bind (h : Reads x s ans) (hf : ∀ a, ans a → AllOrNothing (f a) s Q) : AllOrNothing (x >>= f) s Q := by
  rcases h with ⟨a, s', hx, rfl, ha⟩ | ⟨e, hx⟩
  · rcases hf a ha with ⟨b, s'', hfa, hb⟩ | ⟨e, hfa⟩
    · exact Or.inl ⟨b, s'', (bind_ok hx).trans hfa, hb⟩
    · exact Or.inr ⟨e, (bind_ok hx).trans hfa⟩
  · exact Or.inr ⟨e, bind_error hx⟩

end Reads

namespace Leaves

variable {I J : σ → Prop}

theorem pure {a : α} (h : I s) : Leaves (Pure.pure a : EStateM ε σ α) s I := h

theorem throw {e : ε} (h : I s) : Leaves (MonadExcept.throw e : EStateM ε σ α) s I := h

theorem refuse {g : Graph} {I : Graph → Prop} {e : ReferenceError} (h : I g) :
    Leaves (Edit.refuse e : Edit α) g I := h

theorem modify {step : σ → σ} (h : I (step s)) : Leaves (modify step : EStateM ε σ PUnit) s I := h

theorem modifyGet {step : σ → α × σ} (h : I (step s).2) : Leaves (modifyGet step : EStateM ε σ α) s I := h

theorem mono (h : Leaves x s I) (hj : ∀ s', I s' → J s') : Leaves x s J := by
  unfold Leaves at h ⊢
  split
  · rename_i hx
    rw [hx] at h
    exact hj _ h
  · rename_i hx
    rw [hx] at h
    exact hj _ h

theorem and (h : Leaves x s I) (h' : Leaves x s J) : Leaves x s fun s' => I s' ∧ J s' := by
  unfold Leaves at *
  split <;> rename_i hx <;> rw [hx] at h h' <;> exact ⟨h, h'⟩

/-- The first part may leave behind more than the whole does. -/
theorem chain (h : Leaves x s J) (hj : ∀ s', J s' → I s') (hf : ∀ a s', J s' → Leaves (f a) s' I) :
    Leaves (x >>= f) s I := by
  unfold Leaves at h ⊢
  cases hx : x s with
  | ok a s' =>
    rw [hx] at h
    rw [bind_ok hx]
    exact hf a s' h
  | error e s' =>
    rw [hx] at h
    rw [bind_error hx]
    exact hj s' h

theorem bind (h : Leaves x s I) (hf : ∀ a s', I s' → Leaves (f a) s' I) : Leaves (x >>= f) s I :=
  h.chain (fun _ h => h) hf

theorem map {φ : α → β} (h : Leaves x s I) : Leaves (φ <$> x) s I := by
  rw [map_eq_pure_bind]
  exact h.bind fun _ _ h' => pure h'

theorem get_bind {f : σ → EStateM ε σ β} (h : Leaves (f s) s I) : Leaves (get >>= f) s I := h

theorem set_bind {s' : σ} {f : PUnit → EStateM ε σ β} (h : Leaves (f ⟨⟩) s' I) : Leaves (set s' >>= f) s I := h

theorem modifyGet_bind {step : σ → α × σ} (h : Leaves (f (step s).1) (step s).2 I) :
    Leaves (MonadStateOf.modifyGet step >>= f) s I := h

theorem reads_bind (hx : Reads x s ans) (h : I s) (hf : ∀ a, ans a → Leaves (f a) s I) : Leaves (x >>= f) s I := by
  unfold Leaves
  rcases hx with ⟨a, s', hx, rfl, ha⟩ | ⟨e, hx⟩
  · rw [bind_ok hx]
    exact hf a ha
  · rw [bind_error hx]
    exact h

variable {g : Graph} {I : Graph → Prop}

theorem demand_bind {question : Graph → Except ReferenceError α} {f : α → Edit β} (h : I g)
    (hf : ∀ a, question g = .ok a → Leaves (f a) g I) : Leaves (Edit.demand question >>= f) g I :=
  reads_bind (Reads.demand question) h hf

theorem change {step : Graph → Except ReferenceError (α × Graph)} (h : I g)
    (hs : ∀ a g', step g = .ok (a, g') → I g') : Leaves (Edit.change step) g I := by
  unfold Leaves Edit.change
  cases hstep : step g with
  | ok p => exact hs p.1 p.2 hstep
  | error e => exact h

end Leaves

theorem Leaves.ensures {I : σ → Prop} (h : Leaves x s I) : Ensures x s fun _ s' => I s' := by
  intro a s' hx
  unfold Leaves at h
  rw [hx] at h
  exact h

theorem Leaves.refuses {I : σ → Prop} (h : Leaves x s I) : Refuses x s I := by
  intro e s' hx
  unfold Leaves at h
  rw [hx] at h
  exact h

theorem AllOrNothing.ensures (h : AllOrNothing x s P) : Ensures x s P := fun _ _ hx => h.post hx

theorem AllOrNothing.leaves {I : σ → Prop} (h : AllOrNothing x s fun _ s' => I s') (hs : I s) : Leaves x s I := by
  unfold Leaves
  rcases h with ⟨a, s', hx, ha⟩ | ⟨e, hx⟩
  · rw [hx]
    exact ha
  · rw [hx]
    exact hs

theorem AllOrNothing.and {P' : α → σ → Prop} (h : AllOrNothing x s P) (h' : Ensures x s P') :
    AllOrNothing x s fun a s' => P a s' ∧ P' a s' := by
  rcases h with ⟨a, s', hx, ha⟩ | h
  · exact Or.inl ⟨a, s', hx, ha, h' a s' hx⟩
  · exact Or.inr h

theorem Succeeds.and {P' : α → σ → Prop} (h : Succeeds x s P) (h' : Ensures x s P') :
    Succeeds x s fun a s' => P a s' ∧ P' a s' := by
  obtain ⟨a, s', hx, ha⟩ := h
  exact ⟨a, s', hx, ha, h' a s' hx⟩

theorem Ensures.leaves {I : σ → Prop} (h : Ensures x s fun _ s' => I s') (he : Refuses x s I) : Leaves x s I := by
  unfold Leaves
  split
  · exact h _ _ ‹_›
  · exact he _ _ ‹_›

theorem Succeeds.ensures (h : Succeeds x s P) : Ensures x s P := h.allOrNothing.ensures

namespace Ensures

theorem pure {a : α} (h : P a s) : Ensures (Pure.pure a : EStateM ε σ α) s P := by
  intro b s' hx
  cases hx
  exact h

theorem throw (e : ε) : Ensures (MonadExcept.throw e : EStateM ε σ α) s P := nofun

theorem throw_bind (e : ε) : Ensures ((MonadExcept.throw e : EStateM ε σ α) >>= f) s Q := nofun

theorem refuse {g : Graph} {P : α → Graph → Prop} (e : ReferenceError) :
    Ensures (Edit.refuse e : Edit α) g P := nofun

theorem mono {P' : α → σ → Prop} (h : Ensures x s P) (hp : ∀ a s', P a s' → P' a s') : Ensures x s P' :=
  fun a s' hx => hp a s' (h a s' hx)

theorem and {P' : α → σ → Prop} (h : Ensures x s P) (h' : Ensures x s P') :
    Ensures x s fun a s' => P a s' ∧ P' a s' :=
  fun a s' hx => ⟨h a s' hx, h' a s' hx⟩

theorem bind (h : Ensures x s P) (hf : ∀ a s', P a s' → Ensures (f a) s' Q) : Ensures (x >>= f) s Q := by
  intro b s'' hrun
  cases hx : x s with
  | ok a s' =>
    rw [bind_ok hx] at hrun
    exact hf a s' (h a s' hx) b s'' hrun
  | error e s' =>
    rw [bind_error hx] at hrun
    cases hrun

theorem map {φ : α → β} (h : Ensures x s P) (hq : ∀ a s', P a s' → Q (φ a) s') : Ensures (φ <$> x) s Q := by
  rw [map_eq_pure_bind]
  exact h.bind fun a s' ha => .pure (hq a s' ha)

theorem get_bind {f : σ → EStateM ε σ β} (h : Ensures (f s) s Q) : Ensures (get >>= f) s Q := h

theorem set_bind {s' : σ} {f : PUnit → EStateM ε σ β} (h : Ensures (f ⟨⟩) s' Q) : Ensures (set s' >>= f) s Q := h

theorem modify {step : σ → σ} {P : PUnit → σ → Prop} (h : P ⟨⟩ (step s)) :
    Ensures (modify step : EStateM ε σ PUnit) s P :=
  (Succeeds.modify h).ensures

theorem reads_bind (hx : Reads x s ans) (hf : ∀ a, ans a → Ensures (f a) s Q) : Ensures (x >>= f) s Q := by
  refine hx.ensures.bind fun a s' ⟨hs, ha⟩ => ?_
  subst hs
  exact hf a ha

theorem demand_bind {g : Graph} {question : Graph → Except ReferenceError α} {f : α → Edit β} {Q : β → Graph → Prop}
    (hf : ∀ a, question g = .ok a → Ensures (f a) g Q) : Ensures (Edit.demand question >>= f) g Q :=
  reads_bind (Reads.demand question) hf

theorem change {g : Graph} {step : Graph → Except ReferenceError (α × Graph)} {P : α → Graph → Prop}
    (hs : ∀ a g', step g = .ok (a, g') → P a g') : Ensures (Edit.change step) g P := by
  intro a g' hx
  unfold Edit.change at hx
  cases hstep : step g with
  | ok p =>
    rw [hstep] at hx
    cases hx
    exact hs _ _ hstep
  | error e =>
    rw [hstep] at hx
    cases hx

end Ensures

namespace Refuses

variable {I : σ → Prop}

theorem pure {a : α} : Refuses (Pure.pure a : EStateM ε σ α) s I := nofun

theorem mono {J : σ → Prop} (h : Refuses x s I) (hj : ∀ s', I s' → J s') : Refuses x s J :=
  fun e s' hx => hj s' (h e s' hx)

theorem bind (h : Refuses x s I) (hp : Ensures x s P) (hf : ∀ a s', P a s' → Refuses (f a) s' I) :
    Refuses (x >>= f) s I := by
  intro e s'' hrun
  cases hx : x s with
  | ok a s' =>
    rw [bind_ok hx] at hrun
    exact hf a s' (hp a s' hx) e s'' hrun
  | error e' s' =>
    rw [bind_error hx] at hrun
    cases hrun
    exact h _ _ hx

theorem map {φ : α → β} (h : Refuses x s I) : Refuses (φ <$> x) s I := by
  rw [map_eq_pure_bind]
  exact h.bind (P := fun _ _ => True) (fun _ _ _ => trivial) fun _ _ _ => pure

theorem get_bind {f : σ → EStateM ε σ β} (h : Refuses (f s) s I) : Refuses (get >>= f) s I := h

theorem leaves_bind {J : σ → Prop} (h : Leaves x s J) (hj : ∀ s', J s' → I s')
    (hf : ∀ a s', J s' → Refuses (f a) s' I) : Refuses (x >>= f) s I :=
  (h.refuses.mono hj).bind h.ensures fun a s' => hf a s'

theorem reads_bind (hx : Reads x s ans) (h : I s) (hf : ∀ a, ans a → Refuses (f a) s I) :
    Refuses (x >>= f) s I := by
  refine bind (fun e s' he => ?_) hx.ensures fun a s' ⟨hs, ha⟩ => ?_
  · rw [hx.unchanged he]
    exact h
  · subst hs
    exact hf a ha

theorem change {g : Graph} {I : Graph → Prop} {step : Graph → Except ReferenceError (α × Graph)} (h : I g) :
    Refuses (Edit.change step) g I := by
  intro e g' hx
  unfold Edit.change at hx
  cases hstep : step g <;> rw [hstep] at hx <;> cases hx
  exact h

end Refuses

namespace Graph

variable {g : Graph}

theorem requireNode_eq_ok {o : NodeId} {n : Node} : g.requireNode o = .ok n ↔ g.nodes.get? o = some n := by
  unfold requireNode
  cases g.nodes.get? o <;> simp

theorem requireMorph_eq_ok {k : MorphId} {m : Morph} : g.requireMorph k = .ok m ↔ g.morphs.get? k = some m := by
  unfold requireMorph
  cases g.morphs.get? k <;> simp

theorem requireEdge_eq_ok {e : EdgeRef} {u : Unit} : g.requireEdge e = .ok u ↔ g.hasEdge e = true := by
  unfold requireEdge
  split <;> simp_all

end Graph

end Morphology
