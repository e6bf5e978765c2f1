import Morphology.Proofs.Application.Creation
import Morphology.Proofs.Session.Mentions

/-! The ids of morphs over whole runs. While a node is there, no two morphs that are made for it get one id, and a morph
that was deleted does not come back, so that whoever still has its id is refused. -/

namespace Morphology

open Morphology.Graph

/-- The morphs that are made beside the basic ones, each with its node and the id that comes back for it. -/
def Operation.created (op : Operation) (s : Session) : List (NodeId × MorphId) :=
  match op with
  | apply text => createdByDocument s.schema (Document.parse text) s.graph
  | applyDocument document => createdByDocument s.schema document s.graph
  | op =>
    match op.change?, op.perform s with
    | some (.addMorph node _ _), .ok (.outcome (.morph id)) _ => [(node, id)]
    | _, _ => []

namespace Session

def created : Session → List Operation → List (NodeId × MorphId)
  | _, [] => []
  | s, op :: ops => op.created s ++ created (s.after op) ops

/-- None of the operations deletes the node. -/
def Keeps (o : NodeId) : Session → List Operation → Prop
  | _, [] => True
  | s, op :: ops =>
    (s.graph.nodes.contains o = true → (s.after op).graph.nodes.contains o = true) ∧ Keeps o (s.after op) ops

instance decidableKeeps (o : NodeId) : ∀ (s : Session) (ops : List Operation), Decidable (s.Keeps o ops)
  | _, [] => isTrue trivial
  | s, op :: ops =>
    have := decidableKeeps o (s.after op) ops
    inferInstanceAs (Decidable ((_ → _) ∧ _))

/-- There is no such morph, no transition has it, and the operations that are told it are refused. -/
structure Gone (s : Session) (m : MorphId) : Prop where
  missing : s.graph.morphs.get? m = none
  unnamed : s.graph.FreeMorph m
  refused : ∀ op : Operation, op.Mentions m → ∃ e s', op.perform s = .error e s'

variable {s : Session} {o : NodeId} {op : Operation} {ops : List Operation} {m : MorphId}

theorem after_of_ok {answer : Answer} {s' : Session} (h : op.perform s = .ok answer s') : s.after op = s' := by
  rw [after, h]

theorem Attainable.foldl (h : s.Attainable) (ops : List Operation) : (ops.foldl Session.after s).Attainable := by
  induction ops generalizing s with
  | nil => exact h
  | cons op ops ih => exact ih (h.after op)

theorem Attainable.gone (h : s.Attainable) (hm : s.graph.morphs.get? m = none) : s.Gone m where
  missing := hm
  unnamed := h.statesThere.freeMorph h.framed hm
  refused _ hop := refused_of_gone h.framed hm hop

theorem Keeps.behind {before : List Operation} (h : s.Keeps o (before ++ ops)) :
    (before.foldl Session.after s).Keeps o ops := by
  induction before generalizing s with
  | nil => exact h
  | cons op before ih => exact ih h.2

theorem Keeps.front {rest : List Operation} (h : s.Keeps o (ops ++ rest)) : s.Keeps o ops := by
  induction ops generalizing s with
  | nil => trivial
  | cons op ops ih => exact ⟨h.1, ih h.2⟩

/-! ### What outlasts operations while a node is there -/

/-- Only a node that is there can be deleted, and it is not there any more then. -/
theorem loses_deleteNode (hop : op.change? = some (.deleteNode o)) :
    Ensures op.perform s fun _ s' => s.graph.nodes.contains o = true ∧ s'.graph.nodes.contains o = false := by
  have hdelete : Ensures (Change.deleteNode o).perform s.graph fun _ g' =>
      s.graph.nodes.contains o = true ∧ g'.nodes.contains o = false := by
    refine ((outlasts_sameFrame s.graph).ensures_deleteNode (.refl s.graph) o).map
      fun _ g' ⟨g₁, n, hs, _, hn, hg'⟩ => ⟨?_, ?_⟩
    · exact hs.symm.contains_iff.mpr (Table.contains_iff.mpr ⟨n, hn⟩)
    · rw [hg', Table.contains_eq_false, nodes_withoutNode, if_pos rfl]
  exact (Operation.ensures_perform hop hdelete).mono fun _ _ ⟨_, _, _, h⟩ => h

/-- As the node stays where it is there, its own deletion is refused if it is asked for. -/
theorem holds_after {J : Graph → Prop} (hJ : OutlastsBeside o J) (hf : s.graph.Framed) (h : J s.graph)
    (hkeep : s.graph.nodes.contains o = true → (s.after op).graph.nodes.contains o = true) : J (s.after op).graph := by
  by_cases hop : op.change? = some (.deleteNode o)
  · have hrefuses : Refuses op.perform s fun s' => J s'.graph :=
      Operation.refuses_perform hop h (hJ.outlastsMorphs.toOutlasts.refuses_deleteNode h o).map
    unfold after
    cases hperform : op.perform s with
    | error e s' => exact hrefuses e s' hperform
    | ok answer s' =>
      obtain ⟨hthere, hlost⟩ := loses_deleteNode hop answer s' hperform
      rw [after_of_ok hperform] at hkeep
      rw [hkeep hthere] at hlost
      cases hlost
  · have hadmitted : op.Admitted (· ≠ .deleteNode o) := by
      rintro c hc rfl
      exact hop hc
    exact (hJ.outlastsOperations.after ⟨hf, h⟩ hadmitted).2

theorem holds_foldl {J : Graph → Prop} (hJ : OutlastsBeside o J) (hf : s.graph.Framed) (h : J s.graph)
    (hkeep : s.Keeps o ops) : J (ops.foldl Session.after s).graph := by
  induction ops generalizing s with
  | nil => exact h
  | cons op ops ih => exact ih (framed_after hf op) (holds_after hJ hf h hkeep.1) hkeep.2

/-! ### Morphs that are made -/

theorem climbs_after (hf : s.graph.Framed)
    (hkeep : s.graph.nodes.contains o = true → (s.after op).graph.nodes.contains o = true) :
    Climbs o (s.graph.nextMorphOf o) ((s.after op).graph.nextMorphOf o) (op.created s) := by
  have hle : s.graph.nextMorphOf o ≤ (s.after op).graph.nextMorphOf o :=
    holds_after (outlastsBeside_reaches o _) hf (Nat.le_refl _) hkeep
  unfold Operation.created
  split
  · exact climbs_applyDocument s.schema o hf _
  · exact climbs_applyDocument s.schema o hf _
  · split
    · rename_i node name seed id s' hchange hperform
      have hadd : Ensures (Change.addMorph node name seed).perform s.graph fun outcome g' =>
          outcome = .morph (MorphId.ofNode node (s.graph.nextMorphOf node)) ∧
            s.graph.nextMorphOf node < g'.nextMorphOf node :=
        (hf.ensures_addMorph node name seed).map fun _ _ ⟨hid, hlt⟩ => ⟨congrArg Outcome.morph hid, hlt⟩
      obtain ⟨-, outcome, houtcome, hmorph, hlt⟩ := Operation.ensures_perform hchange hadd _ _ hperform
      cases houtcome
      cases hmorph
      by_cases hnode : node = o
      · subst hnode
        rw [after_of_ok hperform]
        exact .single hlt
      · exact .elsewhere hnode hle
    · exact .nil hle

theorem climbs_created (hf : s.graph.Framed) (hkeep : s.Keeps o ops) :
    Climbs o (s.graph.nextMorphOf o) ((ops.foldl Session.after s).graph.nextMorphOf o) (s.created ops) := by
  induction ops generalizing s with
  | nil => exact .nil (Nat.le_refl _)
  | cons op ops ih => exact (climbs_after hf hkeep.1).append (ih (framed_after hf op) hkeep.2)

/-! ### Morphs that are deleted -/

/-- The number of a morph that is deleted has been passed. -/
theorem spent_after (hf : s.graph.Framed) (hop : op.change? = some (.deleteMorph m)) (howns : s.graph.Owns o m)
    {answer : Answer} {s' : Session} (hperform : op.perform s = .ok answer s')
    (hkeep : s.graph.nodes.contains o = true → (s.after op).graph.nodes.contains o = true) :
    ∃ i, m = MorphId.ofNode o i ∧ Spent o i s'.graph := by
  obtain ⟨m', hm, rfl⟩ := howns
  obtain ⟨n, hn, hin⟩ := hf.listed hm
  obtain ⟨hid, hnum⟩ := hf.node hn
  obtain ⟨i, hi, rfl⟩ := hnum.numbered m hin
  have hpassed : i + 1 ≤ (s.after op).graph.nextMorphOf m'.owner :=
    holds_after (outlastsBeside_reaches m'.owner (i + 1)) hf ((nextMorphOf_eq hn).symm ▸ hi) hkeep
  have hdelete : Ensures (Change.deleteMorph (MorphId.ofNode n.id i)).perform s.graph fun _ g' =>
      g'.morphs.get? (MorphId.ofNode n.id i) = none := (ensures_deleteMorph s.graph _).map fun _ _ h => h
  obtain ⟨-, -, -, hgone⟩ := Operation.ensures_perform hop hdelete _ _ hperform
  have hafter := after_of_ok hperform
  rw [hafter] at hpassed hkeep
  rw [hid] at hgone ⊢
  exact ⟨i, rfl, hkeep (Table.contains_iff.mpr ⟨n, hn⟩), hpassed, hgone⟩

/-- While a node is there, the ids of the morphs that are made for it are different from each other and from that of the
basic one; and from the moment that one of its morphs is deleted, its id is that of no morph, and is of no use. -/
theorem morph_ids_not_reused (h : s.Attainable) (hkeep : s.Keeps o ops) :
    (createdOn o (s.created ops)).Nodup ∧ MorphId.ofNode o 0 ∉ createdOn o (s.created ops) ∧
      ∀ before op later rest m answer s₁, ops = before ++ op :: (later ++ rest) →
        op.change? = some (.deleteMorph m) → (before.foldl Session.after s).graph.Owns o m →
        op.perform (before.foldl Session.after s) = .ok answer s₁ → (later.foldl Session.after s₁).Gone m := by
  have hclimbs := climbs_created h.framed hkeep
  refine ⟨hclimbs.nodup, hclimbs.not_mem h.framed.nextMorphOf_pos, ?_⟩
  rintro before op later rest m answer s₁ rfl hop howns hperform
  have hbefore := h.foldl before
  obtain ⟨hkeep₁, hkeep₂⟩ := hkeep.behind
  obtain ⟨i, rfl, hspent⟩ := spent_after hbefore.framed hop howns hperform hkeep₁
  have hs₁ : s₁.Attainable := after_of_ok hperform ▸ hbefore.after op
  rw [after_of_ok hperform] at hkeep₂
  have hlater := holds_foldl (outlastsBeside_spent o i) hs₁.framed hspent hkeep₂.front
  exact (hs₁.foldl later).gone hlater.gone

def fledging : List Operation :=
  [.change (.addMorph ⟨"crow"⟩ (some "down") none), .change (.deleteMorph ⟨"crow::morph::1"⟩),
    .apply "# Crow\n:::cnl Down\n:::\n", .change (.addMorph ⟨"crow"⟩ none (some ⟨"crow::morph::1"⟩)),
    .change (.addMorph ⟨"crow"⟩ none (some ⟨"crow::morph::2"⟩))]

/-- The down that grows after the first down is not the first one. -/
theorem fledging_ids : createdOn ⟨"crow"⟩ (crow.created fledging) =
      [⟨"crow::morph::1"⟩, ⟨"crow::morph::2"⟩, ⟨"crow::morph::3"⟩] ∧
    (createdOn ⟨"crow"⟩ (crow.created fledging)).Nodup ∧
    MorphId.ofNode ⟨"crow"⟩ 0 ∉ createdOn ⟨"crow"⟩ (crow.created fledging) ∧
    (fledging.foldl Session.after crow).Gone ⟨"crow::morph::1"⟩ := by
  have hattainable : crow.Attainable := ⟨{}, ⟨{}, {}⟩, .single ⟨_, trivial, rfl⟩⟩
  have hkeep : crow.Keeps ⟨"crow"⟩ fledging := by decide +kernel
  obtain ⟨hnodup, hbasic, hgone⟩ := morph_ids_not_reused hattainable hkeep
  have howns : (crow.after (.change (.addMorph ⟨"crow"⟩ (some "down") none))).graph.Owns ⟨"crow"⟩
      ⟨"crow::morph::1"⟩ := ⟨_, rfl, rfl⟩
  have hdeleted := hgone (fledging.take 1) (.change (.deleteMorph ⟨"crow::morph::1"⟩)) (fledging.drop 2) []
    ⟨"crow::morph::1"⟩ _ _ rfl rfl howns rfl
  exact ⟨by decide +kernel, hnodup, hbasic, hdeleted⟩

end Session

end Morphology
