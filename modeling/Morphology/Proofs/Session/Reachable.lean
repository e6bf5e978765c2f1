import Mathlib.Logic.Relation
import Morphology.Proofs.Session.Operation

/-! The sessions that runs of operations lead to. Where neither the namespace nor an imported id has a colon in
it, the graph of each is sound, and an operation that is refused there changes nothing. -/

namespace Morphology

namespace Session

/-- A session in which nothing was done yet. -/
def fresh (settings : Settings) (schema : Schema) : Session := ⟨settings, schema, Graph.empty settings.space⟩

def Step (allowed : Operation → Prop) (s s' : Session) : Prop :=
  ∃ op, allowed op ∧ s.after op = s'

/-- What operations lead to, refused or not, when each of them is allowed. -/
abbrev Run (allowed : Operation → Prop) : Session → Session → Prop := Relation.ReflTransGen (Step allowed)

/-- A run in which every operation is allowed in the session that it is asked of. -/
abbrev RunWhere (allowed : Session → Operation → Prop) : Session → Session → Prop :=
  Relation.ReflTransGen fun s s' => Step (allowed s) s s'

/-- What holds at the beginning of a run and outlasts every operation that is allowed holds at its end. -/
theorem RunWhere.invariant {allowed : Session → Operation → Prop} {I : Session → Prop} {s s' : Session}
    (hrun : RunWhere allowed s s') (h : I s) (hafter : ∀ s op, I s → allowed s op → I (s.after op)) : I s' := by
  induction hrun with
  | refl => exact h
  | tail _ hstep ih =>
    obtain ⟨op, hop, rfl⟩ := hstep
    exact hafter _ op ih hop

theorem Step.mono {allowed allowed' : Operation → Prop} (h : ∀ op, allowed op → allowed' op) {s s' : Session}
    (hs : Step allowed s s') : Step allowed' s s' := by
  obtain ⟨op, hop, hafter⟩ := hs
  exact ⟨op, h op hop, hafter⟩

theorem run_foldl {allowed : Session → Operation → Prop} {ops : List Operation} (h : ∀ op ∈ ops, ∀ s, allowed s op)
    (s : Session) : RunWhere allowed s (ops.foldl Session.after s) := by
  induction ops generalizing s with
  | nil => exact .refl
  | cons op ops ih =>
    obtain ⟨hop, hops⟩ := List.forall_mem_cons.mp h
    exact .head ⟨op, hop s, rfl⟩ (ih hops (s.after op))

def Reachable (s : Session) : Prop :=
  ∃ settings schema, settings.space.IsPlain ∧ Run Operation.Plain (fresh settings schema) s

theorem sound_after {s : Session} (h : s.graph.Sound) {op : Operation} (hop : op.Plain) :
    (s.after op).graph.Sound := by
  have hp := Operation.allOrNothing_perform h op
  unfold after
  split
  · rename_i hok
    exact hp.post hok hop
  · rename_i herror
    exact hp.unchanged herror ▸ h

theorem Reachable.sound {s : Session} (h : s.Reachable) : s.graph.Sound := by
  obtain ⟨settings, schema, hplain, hrun⟩ := h
  exact RunWhere.invariant (I := fun s => s.graph.Sound) hrun (Graph.sound_empty hplain) fun _ _ h hop =>
    sound_after h hop

end Session

namespace Graph

/-- What the tables and lists of a graph promise to those who read them. -/
structure StoreInvariant (g : Graph) : Prop where
  /-- A node lists the morphs that are its own, each once and the basic one first. -/
  listed : ∀ {o n}, g.nodes.get? o = some n → n.id = o ∧ n.morphs.Nodup ∧
    n.morphs.head? = some (MorphId.ofNode o 0) ∧
    ∀ k, k ∈ n.morphs ↔ ∃ m, g.morphs.get? k = some m ∧ m.owner = o
  named : ∀ {o n k l m m' a b}, g.nodes.get? o = some n → k ∈ n.morphs → l ∈ n.morphs →
    g.morphs.get? k = some m → g.morphs.get? l = some m' → m.name = some a → m'.name = some b → k ≠ l →
    Text.fold a ≠ Text.fold b
  active : ∀ {o n k}, g.nodes.get? o = some n → n.active = some k → k ∈ n.morphs
  /-- A morph refers to edges of its own node, to each once. -/
  refs : ∀ {k m}, g.morphs.get? k = some m → m.id = k ∧ m.relations.Nodup ∧ m.attributes.Nodup ∧
    (∃ n, g.nodes.get? m.owner = some n) ∧ ∀ e ∈ m.refs, g.edgeOwner e = some m.owner
  referred : ∀ {e}, g.hasEdge e = true → ∃ k m, g.morphs.get? k = some m ∧ e ∈ m.refs

theorem Sound.storeInvariant {g : Graph} (h : g.Sound) : g.StoreInvariant where
  listed {o n} hn := by
    obtain ⟨hid, hs⟩ := h.node hn
    exact ⟨hid, hs.nodup, hid ▸ hs.basic, fun k =>
      ⟨h.present hn, fun ⟨_, hm, ho⟩ => (h.framed.mem_morphs_iff hn hm).mpr ho⟩⟩
  named hn hk hl hm hm' ha hb hne hfold := by
    obtain ⟨m₁, hm₁, ho⟩ := h.present hn hk
    obtain ⟨m₂, hm₂, ho'⟩ := h.present hn hl
    rw [hm] at hm₁
    rw [hm'] at hm₂
    cases hm₁
    cases hm₂
    exact hne (h.distinct hm hm' (ho.trans ho'.symm) ha hb hfold)
  active hn hk := (h.node hn).2.active _ hk
  refs hm := by
    obtain ⟨hid, hs⟩ := h.morph hm
    obtain ⟨n, hn, -⟩ := h.listed hm
    exact ⟨hid, hs.relations, hs.attributes, ⟨n, hn⟩, fun e he => h.owned hm (Morph.mem_refs.mp he)⟩
  referred he := by
    obtain ⟨k, m, hm, hme⟩ := h.covered _ he
    exact ⟨k, m, hm, Morph.mem_refs.mpr hme⟩

end Graph

namespace Session

def crow : Session := (fresh {} ⟨{}, {}⟩).after (.importNode ⟨"crow"⟩ "Crow" none)

def blackCrow : Session :=
  crow.after (.change (.upsertAttribute ⟨"crow::morph::0"⟩ (Attribute.new ⟨"crow"⟩ "color" "black" none {})))

theorem reachable_blackCrow : blackCrow.Reachable := by
  have himport : Step Operation.Plain (fresh {} ⟨{}, {}⟩) crow := by
    refine ⟨.importNode ⟨"crow"⟩ "Crow" none, ?_, rfl⟩
    show NodeId.IsPlain ⟨"crow"⟩
    decide
  have hupsert : Step Operation.Plain crow blackCrow := by
    refine ⟨.change (.upsertAttribute ⟨"crow::morph::0"⟩ (Attribute.new ⟨"crow"⟩ "color" "black" none {})), ?_, rfl⟩
    rfl
  exact ⟨{}, ⟨{}, {}⟩, by decide, (Relation.ReflTransGen.single himport).tail hupsert⟩

theorem storeInvariant_of_reachable {s : Session} (h : s.Reachable) : s.graph.StoreInvariant :=
  h.sound.storeInvariant

theorem storeInvariant_blackCrow : blackCrow.Reachable ∧ blackCrow.graph.StoreInvariant :=
  ⟨reachable_blackCrow, storeInvariant_of_reachable reachable_blackCrow⟩

theorem unchanged_of_refused {s : Session} (h : s.Reachable) :
    (∀ op e s', Operation.perform op s = .error e s' → s' = s) ∧
      ∀ guard c e g', Change.run guard c s.graph = .error e g' → g' = s.graph :=
  ⟨fun op _ _ hr => (Operation.allOrNothing_perform h.sound op).unchanged hr,
    fun guard c _ _ hr => (Change.allOrNothing_run h.sound guard c).unchanged hr⟩

/-- The basic morph of a node cannot be deleted. -/
theorem blackCrow_unchanged :
    blackCrow.Reachable ∧ ∃ e s', Operation.perform (.change (.deleteMorph ⟨"crow::morph::0"⟩)) blackCrow =
      .error e s' ∧ s' = blackCrow := by
  have hr : ∃ e s', Operation.perform (.change (.deleteMorph ⟨"crow::morph::0"⟩)) blackCrow = .error e s' := by
    refine ⟨.edit (.reference (.protectedMorph ⟨"crow::morph::0"⟩)), blackCrow, ?_⟩
    rfl
  obtain ⟨e, s', hr⟩ := hr
  exact ⟨reachable_blackCrow, e, s', hr, (unchanged_of_refused reachable_blackCrow).1 _ e s' hr⟩

end Session

end Morphology
