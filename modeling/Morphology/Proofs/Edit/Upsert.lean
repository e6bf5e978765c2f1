import Morphology.Proofs.Edit.Frame

/-! Edges written down and written again. An edge that is written where another one is takes its place. Edits leave
every edge under the id that is made of its subject, whatever the ids of its ends are made of; and where no ends clash,
they leave it in the indexes under the name of its type alone. -/

namespace Morphology

namespace EdgeRecord

/-- The change that writes an edge down. -/
def upsert (k : MorphId) : EdgeRecord → Change
  | relation r => .upsertRelation k r
  | attr a => .upsertAttribute k a

end EdgeRecord

theorem GroundedEdge.isComposed_record (edge : GroundedEdge) (g : Graph) : (edge.record g).IsComposed := by
  cases edge <;> rfl

namespace Graph

open Edit

section Upsert

variable {g : Graph} {k : MorphId} {w : EdgeRecord}

theorem ensures_upsert (g : Graph) (k : MorphId) (w : EdgeRecord) (guard : Option Guard) :
    Ensures ((w.upsert k).run guard) g fun answer g' => g.HasEnds w.subject ∧
      (∃ u, answer = .upserted u ∧ u.edge = w.ref ∧ u.created = !g.hasEdge w.ref) ∧ g' = g.upserted k w := by
  refine .reads_bind (Guard.reads_check guard _) fun _ _ => ?_
  cases w with
  | relation r =>
    exact (ensures_upsertRelation g k r).map fun u _ ⟨_, hends, hedge, hcreated, hg⟩ =>
      ⟨hends, ⟨u, rfl, hedge, hcreated⟩, hg⟩
  | attr a =>
    exact (ensures_upsertAttribute g k a).map fun u _ ⟨_, hends, hedge, hcreated, hg⟩ =>
      ⟨hends, ⟨u, rfl, hedge, hcreated⟩, hg⟩

theorem succeeds_upsert (hk : g.Owns w.subject.owner k) (hends : g.HasEnds w.subject) :
    Succeeds ((w.upsert k).run none) g fun answer g' =>
      (∃ u, answer = .upserted u ∧ u.edge = w.ref ∧ u.created = !g.hasEdge w.ref) ∧ g' = g.upserted k w := by
  obtain ⟨m, hm, ho⟩ := hk
  obtain ⟨hs, ht⟩ := hends
  cases w with
  | relation r =>
    show Succeeds (Outcome.upserted <$> upsertRelation k r) g _
    exact (succeeds_upsertRelation hm ho hs (ht r.target rfl)).map fun u _ ⟨hedge, hcreated, hg⟩ =>
      ⟨⟨u, rfl, hedge, hcreated⟩, hg⟩
  | attr a =>
    show Succeeds (Outcome.upserted <$> upsertAttribute k a) g _
    exact (succeeds_upsertAttribute hm ho hs).map fun u _ ⟨hedge, hcreated, hg⟩ =>
      ⟨⟨u, rfl, hedge, hcreated⟩, hg⟩

end Upsert

variable {p : NodeId → Prop} {q : EdgeSubject → Prop} {g : Graph}

theorem outlastsChanges_composed (p : NodeId → Prop) (q : EdgeSubject → Prop) : OutlastsChanges (Composed p q) where
  unlink h hs := by
    refine h.reframe (sameFrame_unlink hs) fun e w hw => ?_
    obtain ⟨m, -, rfl⟩ := unlink_eq_ok hs
    cases e <;> exact hw
  removeEdge h hs := h.reframe (sameFrame_removeEdge hs) fun _ _ hw => (record_of_removeEdge hs hw).2
  link h hs := by
    refine h.reframe (sameFrame_link hs) fun e w hw => ?_
    obtain ⟨-, -, -, rfl⟩ := link_eq_ok hs
    exact record?_linking.symm.trans hw
  bump o h := h.reframe (.modifyNode _ o fun _ => rfl) fun e w hw => by cases e <;> exact hw
  createMorph {g o n name} _ hf hn h := by
    refine h.reduce rfl (fun p hp => ?_) fun e w hw => ⟨w, record?_withMorph.symm.trans hw, rfl⟩
    rcases contains_withMorph.mp hp with rfl | hp
    · exact Table.contains_iff.mpr ⟨n, (hf.node hn).1 ▸ hn⟩
    · exact hp
  withoutMorph _ _ _ _ h :=
    h.reduce rfl (fun p hp => contains_withoutMorph.symm.trans hp) fun e w hw => ⟨w, by cases e <;> exact hw, rfl⟩
  withoutNode _ _ _ h :=
    h.reduce rfl (fun p hp => (contains_withoutNode.mp hp).2) fun e w hw => ⟨w, by cases e <;> exact hw, rfl⟩
  choose o k h := h.reframe (.modifyNode _ o fun _ => rfl) fun e w hw => by cases e <;> exact hw
  modify modifiers hr h := h.insertRelation hr modifiers

theorem outlastsDocuments_composed {schema : Schema} (p : NodeId → Prop)
    (hq : ∀ {g o n s}, (Grounding.ofStatement schema g o s n).errors.isEmpty = true →
      ∀ g₁, q ((Grounding.ofStatement schema g o s n).edge.record g₁).subject) :
    OutlastsDocuments schema fun g => g.Framed ∧ g.Composed p q where
  resolve name qualifier h := ⟨h.1.resolve name qualifier, h.2.resolve name qualifier⟩
  addMorph o name h := (outlastsChanges_framed.leaves_addMorph h.1 h.1 o name none).and
    ((outlastsChanges_composed p q).leaves_addMorph h.1 h.2 o name none)
  writeEdge {g} k _ _ he h := (h.1.leaves_writeEdge k _).and <|
    (outlastsChanges_composed p q).leaves_writeEdge h.2 h.2.resolve k fun _ h₁ hends =>
      h₁.withRecord (GroundedEdge.isComposed_record _ g) hends (hq he g)

theorem outlastsChanges_filed : OutlastsChanges Filed where
  unlink h hs := by
    obtain ⟨m, -, rfl⟩ := unlink_eq_ok hs
    exact ⟨h.relationType, h.attributeType⟩
  removeEdge {g _ e _} h hs := by
    obtain ⟨-, rfl⟩ := removeEdge_eq_ok hs
    exact ⟨(h.eraseEdgeRecord e).relationType, (h.eraseEdgeRecord e).attributeType⟩
  link {g _ k e _} h hs := by
    obtain ⟨-, -, -, rfl⟩ := link_eq_ok hs
    obtain ⟨ms, x, hg⟩ := linking_cases g k e
    exact hg ▸ ⟨h.relationType, h.attributeType⟩
  bump _ h := ⟨h.relationType, h.attributeType⟩
  createMorph _ _ _ h := ⟨h.relationType, h.attributeType⟩
  withoutMorph _ _ _ _ h := ⟨h.relationType, h.attributeType⟩
  withoutNode _ _ _ h := ⟨h.relationType, h.attributeType⟩
  choose _ _ h := ⟨h.relationType, h.attributeType⟩
  modify modifiers hr h := h.insertRelation hr modifiers

theorem outlastsDocuments_filed {schema : Schema} (n : Nat)
    (hq : ∀ {g o n s}, (Grounding.ofStatement schema g o s n).errors.isEmpty = true →
      ∀ g₁, q ((Grounding.ofStatement schema g o s n).edge.record g₁).subject) :
    OutlastsDocuments schema fun g => (g.Framed ∧ g.Composed (·.colons = n) q) ∧ g.Filed where
  resolve name qualifier h := ⟨(outlastsDocuments_composed _ hq).resolve name qualifier h.1, h.2.resolve name qualifier⟩
  addMorph o name h := ((outlastsDocuments_composed _ hq).addMorph o name h.1).and
    (outlastsChanges_filed.leaves_addMorph h.1.1 h.2 o name none)
  writeEdge {g} k o line he h := by
    refine ((outlastsDocuments_composed _ hq).writeEdge k o line he h.1).and ?_
    have hI := (outlastsChanges_composed (·.colons = n) q).toOutlasts.and outlastsChanges_filed.toOutlasts
    have hroom (name : String) (qualifier : Option String) : (g.resolve name qualifier).2.Composed (·.colons = n) q ∧
        (g.resolve name qualifier).2.Filed := ⟨h.1.2.resolve name qualifier, h.2.resolve name qualifier⟩
    refine (hI.leaves_writeEdge ⟨h.1.2, h.2⟩ hroom k fun g₁ ⟨h₁, hfiled⟩ hends => ?_).mono fun _ => And.right
    have hc := GroundedEdge.isComposed_record (Grounding.ofStatement schema g o line.2 line.1).edge g
    exact ⟨h₁.withRecord hc hends (hq he g), hfiled.withRecord fun v hv => h₁.subject_eq (fun _ => id) hv hc hends⟩

/-- Nothing is said here of subjects. -/
theorem Composed.leaves_perform (h : g.Composed p fun _ => True) (hf : g.Framed) {c : Change} (hc : c.Plain) :
    Leaves c.perform g (Composed p fun _ => True) := by
  by_cases hneutral : c.Neutral
  · exact (outlastsChanges_composed p _).leaves_perform hf h hneutral
  have hI := (outlastsChanges_composed p fun _ => True).toOutlasts
  cases c with
  | upsertRelation k r =>
    refine Leaves.map (hI.leaves_upsertRelation h k fun hsource htarget => ?_)
    refine h.withRecord (w := .relation r) (congrArg EdgeRef.relation hc) ⟨hsource, ?_⟩ trivial
    rintro b ⟨⟩
    exact htarget
  | upsertAttribute k a =>
    refine Leaves.map (hI.leaves_upsertAttribute h k fun howner => ?_)
    exact h.withRecord (w := .attr a) (congrArg EdgeRef.attr hc) ⟨howner, nofun⟩ trivial
  | updateAttribute id value typed modifiers =>
    have hupdated : Leaves (updateAttribute id value typed modifiers) g (Composed p fun _ => True) :=
      hI.leaves_updateAttribute h fun _ ha => h.insertAttribute ha value typed modifiers
    exact hupdated.bind fun _ _ h' => .pure h'
  | updateNode o update =>
    refine Leaves.bind (.demand_bind h fun _ _ => .modify ?_) fun _ _ h' => .pure h'
    exact h.reframe (.modifyNode _ o fun _ => rfl) fun e w hw => by cases e <;> exact hw
  | _ => exact absurd trivial hneutral

end Graph

end Morphology
