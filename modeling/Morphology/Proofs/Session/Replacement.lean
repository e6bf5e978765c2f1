import Morphology.Proofs.Edit.Upsert
import Morphology.Proofs.Session.Attainable

/-! Edges that take the place of others. Where an edge is written and none is made, the one that was there is about the
same nodes and the same type, unless the ids of its ends clash with those of the new one; and wherever ids clash, there
are names by which one edge takes the place of another. -/

namespace Morphology

namespace Graph

open Edit

/-- Imported nodes may have any ids. -/
theorem outlastsOperations_composed :
    OutlastsOperations Change.Plain fun g => g.Framed ∧ g.Composed (fun _ => True) fun _ => True where
  document schema := outlastsDocuments_composed _ fun _ _ => trivial
  importNode id name qualifier h := ⟨h.1.importNode id name qualifier, h.2.importNode trivial name qualifier⟩
  run guard hc h := (framed_run h.1 guard _).and <|
    .reads_bind (Guard.reads_check guard _) h.2 fun _ _ => h.2.leaves_perform h.1 hc
  updateNode _ _ := trivial
  updateAttribute _ _ _ _ := trivial
  deleteEdges es h := (outlastsChanges_framed.leaves_deleteEdges h.1 es).and
    ((outlastsChanges_composed _ _).leaves_deleteEdges h.2 es)
  withTransitions ts h :=
    ⟨h.1.withTransitions ts, h.2.reframe (.of_eq rfl rfl rfl) fun e w hw => by cases e <;> exact hw⟩

end Graph

namespace Session

open Morphology.Graph

variable {settings : Settings} {schema : Schema} {s : Session}

/-- Written after `v`, each under the basic morph of its owner, `w` takes the place of it. -/
def Replaces (s : Session) (v w : EdgeRecord) : Prop :=
  ∃ u₁ s₁ u₂ s₂,
    (Operation.change (v.upsert (.ofNode v.subject.owner 0))).perform s = .ok (.outcome (.upserted u₁)) s₁ ∧
    (Operation.change (w.upsert (.ofNode w.subject.owner 0))).perform s₁ = .ok (.outcome (.upserted u₂)) s₂ ∧
    u₁.edge = u₂.edge ∧ u₂.created = false

theorem composed_of_run (hrun : Run (Operation.Admitted Change.Plain) (fresh settings schema) s) :
    s.graph.Framed ∧ s.graph.Composed (fun _ => True) fun _ => True :=
  outlastsOperations_composed.of_run ⟨framed_empty _, composed_empty fun _ _ => trivial⟩ hrun

theorem ensures_upsert {op : Operation} {k : MorphId} {w : EdgeRecord} (hop : op.change? = some (w.upsert k)) :
    Ensures op.perform s fun answer s' => s.graph.HasEnds w.subject ∧
      (∃ u, answer = .outcome (.upserted u) ∧ u.edge = w.ref ∧ u.created = !s.graph.hasEdge w.ref) ∧
      s'.graph = s.graph.upserted k w := by
  refine (Operation.ensures_change hop fun guard => s.graph.ensures_upsert k w guard).mono ?_
  rintro _ _ ⟨-, _, rfl, hends, ⟨u, rfl, hu⟩, hg⟩
  exact ⟨hends, ⟨u, rfl, hu⟩, hg⟩

/-- The morph that every node has from the beginning on. -/
theorem owns_basic (h : s.graph.Framed) {o : NodeId} (ho : s.graph.nodes.contains o = true) :
    s.graph.Owns o (.ofNode o 0) := by
  obtain ⟨n, hn⟩ := Table.contains_iff.mp ho
  obtain ⟨rfl, hnum⟩ := h.node hn
  exact h.present hn (List.mem_of_mem_head? hnum.basic)

theorem succeeds_upsert (h : s.graph.Framed) {w : EdgeRecord} (hends : s.graph.HasEnds w.subject) :
    Succeeds (Operation.change (w.upsert (.ofNode w.subject.owner 0))).perform s fun answer s' =>
      (∃ u, answer = .outcome (.upserted u) ∧ u.edge = w.ref ∧ u.created = !s.graph.hasEdge w.ref) ∧
      s'.graph = s.graph.upserted (.ofNode w.subject.owner 0) w := by
  have hrun := Graph.succeeds_upsert (owns_basic h hends.1) hends
  refine (Action.succeeds_edit hrun).map ?_
  rintro _ _ ⟨⟨u, rfl, hu⟩, hg⟩
  exact ⟨⟨u, rfl, hu⟩, hg⟩

theorem replaces_of_ref_eq (h : s.graph.Framed) {v w : EdgeRecord} (hv : s.graph.HasEnds v.subject)
    (hw : s.graph.HasEnds w.subject) (href : v.ref = w.ref) : s.Replaces v w := by
  obtain ⟨_, s₁, hrun₁, ⟨u₁, rfl, hedge₁, -⟩, hg₁⟩ := succeeds_upsert h hv
  have h₁ : s₁.graph.Framed := by
    have hafter := framed_after h (.change (v.upsert (.ofNode v.subject.owner 0)))
    rwa [after, hrun₁] at hafter
  have hw₁ : s₁.graph.HasEnds w.subject := by
    rw [hg₁]
    exact hw.mono fun _ => (grown_upserted _ _ _).contains_node
  have hthere : s₁.graph.hasEdge w.ref = true := by
    rw [hg₁, hasEdge_eq, record?_upserted, if_pos href.symm, Option.isSome_some]
  obtain ⟨_, s₂, hrun₂, ⟨u₂, rfl, hedge₂, hcreated₂⟩, -⟩ := succeeds_upsert h₁ hw₁
  refine ⟨u₁, s₁, u₂, s₂, hrun₁, hrun₂, ?_, ?_⟩
  · rw [hedge₁, hedge₂, href]
  · rw [hcreated₂, hthere, Bool.not_true]

/-- What was under the id has the ends and the name of what is there now, or its ends clash with the new ones. -/
theorem replaced_of_upsert (hc : s.graph.Composed (fun _ => True) fun _ => True) {op : Operation} {k : MorphId}
    {w : EdgeRecord} {u : Upserted} {s' : Session} (hop : op.change? = some (w.upsert k)) (hw : w.IsComposed)
    (hok : op.perform s = .ok (.outcome (.upserted u)) s') (hcreated : u.created = false) :
    ∃ v, s.graph.record? u.edge = some v ∧ s'.graph.record? u.edge = some w ∧
      (v.subject = w.subject ∨ v.subject.Clashes w.subject ∧ ¬s.Reachable) := by
  obtain ⟨hends, ⟨u, ⟨⟩, hedge, hu⟩, hg⟩ := ensures_upsert hop _ _ hok
  have hthere : (s.graph.record? w.ref).isSome = true := by
    rw [← hasEdge_eq]
    simpa [hcreated] using hu
  obtain ⟨v, hv⟩ := Option.isSome_iff_exists.mp hthere
  rw [hedge]
  refine ⟨v, hv, by rw [hg, record?_upserted, if_pos rfl], ?_⟩
  have href : v.subject.ref = w.subject.ref := (hc.edge _ v hv).1.symm.trans hw
  refine (EdgeSubject.eq_or_clashes href).imp_right fun hclash => ⟨hclash, fun hr => ?_⟩
  have hsound := hr.sound
  exact EdgeSubject.not_clashes (hsound.endsAll_colons (hsound.record hv).2.2) (hsound.endsAll_colons hends) hclash

/-- An edge that is written where one is there already is on the same subject, unless their ends clash, as they do not
where ids are plain; and where the ends of two edges clash, there are names by which one takes the place of the
other. -/
theorem sameSubject_of_upsert (hrun : Run (Operation.Admitted Change.Plain) (fresh settings schema) s) :
    (∀ (op : Operation) (k : MorphId) (w : EdgeRecord) (u : Upserted) (s' : Session),
      op.change? = some (w.upsert k) → w.IsComposed → op.perform s = .ok (.outcome (.upserted u)) s' →
      u.created = false → ∃ v, s.graph.record? u.edge = some v ∧ s'.graph.record? u.edge = some w ∧
        (v.subject = w.subject ∨ v.subject.Clashes w.subject ∧ ¬s.Reachable)) ∧
    ∀ x y : EdgeSubject, s.graph.HasEnds x → s.graph.HasEnds y → x.Clashes y → ∃ a b, ∀ v w : EdgeRecord,
      v.IsComposed → w.IsComposed → v.subject = { x with name := a } → w.subject = { y with name := b } →
      s.Replaces v w := by
  obtain ⟨hf, hc⟩ := composed_of_run hrun
  refine ⟨fun op k w u s' => replaced_of_upsert hc, fun x y hx hy hclash => ?_⟩
  obtain ⟨a, b, href⟩ := hclash.exists_names
  refine ⟨a, b, fun v w hv hw hvx hwy => replaces_of_ref_eq hf ?_ ?_ ?_⟩
  · rw [hvx]
    exact hx
  · rw [hwy]
    exact hy
  · rw [hv, hw, hvx, hwy, href]

/-- A crow, and a wing whose id begins with that of the crow and a separator. -/
def winged : Session := crow.after (.importNode ⟨"crow::wing"⟩ "Wing" none)

def gray : EdgeRecord := .attr (Attribute.new ⟨"crow"⟩ "color" "gray" none {})

/-- It is the crow that is gray now and was black before; but a white wing may be what was a white crow. -/
theorem sameSubject_winged :
    (∃ u s' v, (Operation.change (gray.upsert ⟨"crow::morph::0"⟩)).perform blackCrow =
        .ok (.outcome (.upserted u)) s' ∧
      u.created = false ∧ blackCrow.graph.record? u.edge = some v ∧ v.subject = gray.subject) ∧
    ∃ a b, winged.Replaces (.attr (Attribute.new ⟨"crow"⟩ a "white" none {}))
      (.attr (Attribute.new ⟨"crow::wing"⟩ b "white" none {})) := by
  have himported : Step (Operation.Admitted Change.Plain) (fresh {} ⟨{}, {}⟩) crow :=
    ⟨_, Operation.admitted_of_change?_none rfl, rfl⟩
  constructor
  · have hrun : Run (Operation.Admitted Change.Plain) (fresh {} ⟨{}, {}⟩) blackCrow := by
      refine (Relation.ReflTransGen.single himported).tail ⟨_, ?_, rfl⟩
      rintro c ⟨⟩
      rfl
    obtain ⟨u, s', hok, hcreated⟩ : ∃ u s', (Operation.change (gray.upsert ⟨"crow::morph::0"⟩)).perform blackCrow =
        .ok (.outcome (.upserted u)) s' ∧ u.created = false :=
      ⟨⟨.attr ⟨"crow::color"⟩, false, false⟩, _, rfl, rfl⟩
    obtain ⟨v, hv, -, hsame⟩ := (sameSubject_of_upsert hrun).1 _ _ gray u s' rfl rfl hok hcreated
    exact ⟨u, s', v, hok, hcreated, hv, hsame.resolve_right fun hclash => hclash.2 reachable_blackCrow⟩
  · have hrun : Run (Operation.Admitted Change.Plain) (fresh {} ⟨{}, {}⟩) winged :=
      (Relation.ReflTransGen.single himported).tail ⟨_, Operation.admitted_of_change?_none rfl, rfl⟩
    have hends (o : NodeId) (ho : winged.graph.nodes.contains o = true) : winged.graph.HasEnds ⟨o, "", none⟩ :=
      ⟨ho, nofun⟩
    have hclash : EdgeSubject.Clashes ⟨⟨"crow"⟩, "", none⟩ ⟨⟨"crow::wing"⟩, "", none⟩ := by
      refine ⟨Or.inl (by decide), Or.inr (Or.inl ?_), Or.inl rfl⟩
      exact ⟨"wing:".toList, by decide⟩
    obtain ⟨a, b, hreplaces⟩ := (sameSubject_of_upsert hrun).2 _ _ (hends ⟨"crow"⟩ (by decide +kernel))
      (hends ⟨"crow::wing"⟩ (by decide +kernel)) hclash
    exact ⟨a, b, hreplaces _ _ rfl rfl rfl rfl⟩

end Session

end Morphology
