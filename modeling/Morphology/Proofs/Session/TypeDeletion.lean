import Morphology.Proofs.Schema.Invariant
import Morphology.Proofs.Session.Typing

/-! Deleting types of edges as the policy has it. A type of the own tier goes unless edges of it are to be kept, and
where they are not, these go with it, with all references to them, and nothing else does. -/

namespace Morphology

open Text

/-- The edge is of this type, in any spelling of the name. -/
def Graph.OfType (g : Graph) (kind : TypeKind) (name : String) : EdgeRef → Prop
  | .relation id => kind = .relationType ∧ ∃ r, g.relations.get? id = some r ∧ fold r.name = fold name
  | .attr id => kind = .attributeType ∧ ∃ a, g.attributes.get? id = some a ∧ fold a.name = fold name

/-- The edges of a type, with all references to them. -/
def Deletion.ofType (g : Graph) (kind : TypeKind) (name : String) : Deletion where
  edges := g.OfType kind name
  references _ := g.OfType kind name

theorem Graph.Filed.mem_edgesOfType {g : Graph} (h : g.Filed) {kind : TypeKind} {name : String} {e : EdgeRef} :
    e ∈ g.edgesOfType kind name ↔ g.OfType kind name e := by
  cases kind with
  | nodeType => cases e <;> simp [edgesOfType, OfType]
  | relationType => cases e <;> simp [edgesOfType, OfType, relationsOfType, h.relationType]
  | attributeType => cases e <;> simp [edgesOfType, OfType, attributesOfType, h.attributeType]

namespace Schema

variable {schema : Schema} {kind : TypeKind} {name : String}

theorem tierOf?_eq (schema : Schema) (kind : TypeKind) (name : String) : schema.tierOf? kind name =
    if schema.shared.contains kind name then some .global
    else if schema.own.contains kind name then some .user else none := by
  have hfound {α : Type} (x y : Option α) : (((x.map (Tier.global, ·)).or (y.map (Tier.user, ·))).map (·.1)) =
      if x.isSome then some .global else if y.isSome then some .user else none := by
    cases x <;> cases y <;> rfl
  cases kind with
  | nodeType => exact hfound (schema.shared.nodeType? name) (schema.own.nodeType? name)
  | relationType => exact hfound (schema.shared.relationType? name) (schema.own.relationType? name)
  | attributeType => exact hfound (schema.shared.attributeType? name) (schema.own.attributeType? name)

theorem Disjoint.shared_of_own (h : schema.Disjoint) (hown : schema.own.contains kind name = true) :
    schema.shared.contains kind name = false := by
  rw [SchemaTier.contains_eq] at hown ⊢
  rcases h kind (fold name) with hnone | hnone
  · rw [hnone, Option.isSome_none]
  · rw [hnone] at hown
    cases hown

/-- The schema does not ask what types of edges are used for. -/
theorem delete_of_own (hkind : kind ≠ .nodeType) (hshared : schema.shared.contains kind name = false)
    (hown : schema.own.contains kind name = true) : ∃ d, schema.delete kind name = .ok (d, schema.erase kind name) := by
  have heditable : schema.checkEditable kind name = .ok () := by simp [checkEditable, hshared, hown]
  cases kind with
  | nodeType => exact absurd rfl hkind
  | relationType =>
    obtain ⟨d, hd⟩ := Option.isSome_iff_exists.mp hown
    have hdelete : schema.deleteRelationType name = .ok (d, schema.erase .relationType name) := by
      simp only [deleteRelationType, heditable, hd, bind, Except.bind]
      rfl
    exact ⟨.relationType d, map_eq_ok.mpr ⟨_, hdelete, rfl⟩⟩
  | attributeType =>
    obtain ⟨d, hd⟩ := Option.isSome_iff_exists.mp hown
    have hdelete : schema.deleteAttributeType name = .ok (d, schema.erase .attributeType name) := by
      simp only [deleteAttributeType, heditable, hd, bind, Except.bind]
      rfl
    exact ⟨.attributeType d, map_eq_ok.mpr ⟨_, hdelete, rfl⟩⟩

end Schema

namespace Session

variable {settings : Settings} {s₀ s : Session} {kind : TypeKind} {name : String}

/-- Edges of the type are to be kept, or there is none. -/
theorem checkDeletable_eq_ok_iff (hkind : kind ≠ .nodeType) (h : s.schema.Disjoint) :
    s.checkDeletable kind name = .ok () ↔ s.schema.own.contains kind name = true ∧
      (s.settings.deletePolicy = .cascade ∨ s.graph.edgesOfType kind name = []) := by
  have hblockers : s.blockers kind name = 0 ↔
      s.settings.deletePolicy = .cascade ∨ s.graph.edgesOfType kind name = [] := by
    cases hpolicy : s.settings.deletePolicy <;> cases kind <;> simp [blockers, hpolicy] at hkind ⊢
  unfold checkDeletable
  rw [Schema.tierOf?_eq]
  cases hown : s.schema.own.contains kind name with
  | false =>
    cases s.schema.shared.contains kind name <;> simp
  | true =>
    rw [h.shared_of_own hown, ← hblockers]
    cases hzero : s.blockers kind name <;> simp

/-- The schema is as good as the configured one, however the graph fares. -/
theorem outlastsWrites_wellFormed : OutlastsWrites fun s => s.schema.WellFormed where
  graph _ h := h
  schema hchange h := h.change hchange

theorem wellFormed_of_run {allowed : Session → Operation → Prop} (hcreate : create settings = .ok s₀)
    (hrun : RunWhere allowed s₀ s) : s.schema.WellFormed := by
  obtain ⟨tier, hbuild, rfl⟩ := create_eq_ok hcreate
  exact hrun.invariant (I := fun s => s.schema.WellFormed) (Schema.wellFormed_of_build hbuild) fun _ op h _ =>
    outlastsWrites_wellFormed.after h op

theorem reachable_of_create (hspace : settings.space.IsPlain) (hcreate : create settings = .ok s₀)
    (hrun : Run Operation.Plain s₀ s) : s.Reachable := by
  obtain ⟨tier, -, rfl⟩ := create_eq_ok hcreate
  exact ⟨settings, ⟨tier, {}⟩, hspace, hrun⟩

end Session

namespace Action

open Session

variable {s : Session} {kind : TypeKind} {name : String}

/-- The edges go with all references to them. -/
theorem exact_deleteEdgesOfType {g : Graph} (h : g.Sound) (kind : TypeKind) (name : String) :
    Succeeds (Edit.deleteEdges (g.edgesOfType kind name)) g fun _ g' =>
      (Deletion.ofType g kind name).Exact { edges := g.edgesOfType kind name } g g' := by
  obtain ⟨hnodup, hthere⟩ := edgesOfType_spec h.filed kind name
  have hlisted : ∀ e, e ∈ g.edgesOfType kind name ↔ g.OfType kind name e := fun e => h.filed.mem_edgesOfType
  refine (Edit.succeeds_deleteEdges h hnodup hthere).mono fun _ g' ⟨_, hpruned⟩ => ?_
  refine hpruned.exact (fun _ => id) (fun _ => id) hnodup hlisted (fun e he => hthere e ((hlisted e).mpr he)) ?_ ?_
  · exact fun e _ => decide_eq_true_iff.trans (hlisted e)
  · exact fun _ e _ => decide_eq_true_iff.trans (hlisted e)

/-- Nothing else is in the way of a deletion that the policy admits. -/
theorem succeeds_deleteType (hkind : kind ≠ .nodeType) (hsound : s.graph.Sound) (h : s.schema.Disjoint)
    (hdeletable : s.checkDeletable kind name = .ok ()) : Succeeds (deleteType kind name) s fun _ _ => True := by
  obtain ⟨hown, -⟩ := (checkDeletable_eq_ok_iff hkind h).mp hdeletable
  obtain ⟨d, hd⟩ := Schema.delete_of_own hkind (h.shared_of_own hown) hown
  have hschema : Succeeds (editSchema fun schema => schema.delete kind name) s fun _ s' => s'.graph = s.graph :=
    ⟨d, { s with schema := s.schema.erase kind name }, by simp only [editSchema, hd], rfl⟩
  refine .get_bind ?_
  rw [hdeletable]
  refine Succeeds.bind hschema fun _ s₁ hs₁ => ?_
  have hedges : Succeeds (Edit.deleteEdges (s.graph.edgesOfType kind name)) s₁.graph fun _ _ => True := by
    rw [hs₁]
    exact succeeds_deleteEdgesOfType (Or.inr hsound.filed) hdeletable
  exact (succeeds_edit hedges).bind fun _ _ _ => .pure trivial

theorem ensures_checkDeletable (s : Session) (kind : TypeKind) (name : String) :
    Ensures (deleteType kind name) s fun _ _ => s.checkDeletable kind name = .ok () := by
  refine .get_bind ?_
  split
  · exact .throw _
  · rename_i hdeletable
    exact fun _ _ _ => hdeletable

end Action

namespace Session

variable {settings : Settings} {s₀ s : Session} {kind : TypeKind} {name : String}

/-- A type of edges of the own tier is deleted unless its edges are to be kept; it goes with these and with all
references to them, and nothing else does. -/
structure DeletesByPolicy (s : Session) (kind : TypeKind) (name : String) : Prop where
  deleted_iff : (∃ answer s', (Operation.changeSchema (.delete kind name)).perform s = .ok answer s') ↔
    s.schema.own.contains kind name = true ∧
      (s.settings.deletePolicy = .cascade ∨ ∀ e, ¬s.graph.OfType kind name e)
  deleted : ∀ answer s', (Operation.changeSchema (.delete kind name)).perform s = .ok answer s' →
    ∃ g', s' = { s with schema := s.schema.erase kind name, graph := g' } ∧
      (∀ key d, s'.schema.Stores key d ↔ s.schema.Stores key d ∧ ¬(d.kind = kind ∧ key = fold name)) ∧
      (Deletion.ofType s.graph kind name).Exact { edges := s.graph.edgesOfType kind name } s.graph g'
  refused : ∀ e s', (Operation.changeSchema (.delete kind name)).perform s = .error e s' → s' = s

theorem deleteType_of_perform {answer : Answer} {s' : Session}
    (h : (Operation.changeSchema (.delete kind name)).perform s = .ok answer s') :
    ∃ d, Action.deleteType kind name s = .ok d s' := by
  replace h : EStateM.map _ (EStateM.map _ (Action.deleteType kind name)) s = .ok answer s' := h
  cases hdeleted : Action.deleteType kind name s with
  | ok d s₁ =>
    simp only [EStateM.map, hdeleted] at h
    cases h
    exact ⟨d, rfl⟩
  | error e s₁ =>
    simp only [EStateM.map, hdeleted] at h
    cases h

theorem deletesByPolicy (hkind : kind ≠ .nodeType) (hsound : s.graph.Sound) (h : s.schema.Disjoint) :
    s.DeletesByPolicy kind name := by
  have hnone : s.graph.edgesOfType kind name = [] ↔ ∀ e, ¬s.graph.OfType kind name e := by
    simp [List.eq_nil_iff_forall_not_mem, hsound.filed.mem_edgesOfType]
  have hdeletable : s.checkDeletable kind name = .ok () ↔ s.schema.own.contains kind name = true ∧
      (s.settings.deletePolicy = .cascade ∨ ∀ e, ¬s.graph.OfType kind name e) := by
    rw [← hnone]
    exact checkDeletable_eq_ok_iff hkind h
  have hasked {d : Definition} {s' : Session} (hok : Action.deleteType kind name s = .ok d s') :=
    hdeletable.mp (Action.ensures_checkDeletable s kind name d s' hok)
  refine ⟨⟨fun ⟨answer, s', hok⟩ => ?_, fun hpolicy => ?_⟩, fun answer s' hok => ?_, fun e s' hrefused => ?_⟩
  · obtain ⟨d, hok⟩ := deleteType_of_perform hok
    exact hasked hok
  · obtain ⟨d, s', hok, -⟩ := Action.succeeds_deleteType hkind hsound h (hdeletable.mpr hpolicy)
    refine ⟨.definition (some d), s', ?_⟩
    show EStateM.map _ (EStateM.map _ (Action.deleteType kind name)) s = _
    simp only [EStateM.map, hok]
  · obtain ⟨d, hok⟩ := deleteType_of_perform hok
    have hdeleted := Action.ensures_deleteType kind name fun _ _ =>
      (Action.exact_deleteEdgesOfType hsound kind name).ensures
    obtain ⟨g', rfl, hexact⟩ := hdeleted d s' hok
    exact ⟨g', rfl, fun key d => Schema.stores_erase (h.shared_of_own (hasked hok).1), hexact⟩
  · exact (Operation.allOrNothing_perform hsound _).unchanged hrefused

theorem deletesByPolicy_of_run (hspace : settings.space.IsPlain) (hcreate : create settings = .ok s₀)
    (hrun : Run Operation.Plain s₀ s) (hkind : kind ≠ .nodeType) (name : String) : s.DeletesByPolicy kind name :=
  deletesByPolicy hkind (reachable_of_create hspace hcreate hrun).sound (wellFormed_of_run hcreate hrun).disjoint

def watching : Session := watch.foldl Session.after aviary

/-- Something is seen, and it goes with its type, whatever the spelling. -/
theorem deletesByPolicy_watching : create aviary.settings = .ok aviary ∧ watching.DeletesByPolicy .relationType "Sees" ∧
    watching.graph.edgesOfType .relationType "Sees" ≠ [] ∧
    ∃ answer s', (Operation.changeSchema (.delete .relationType "Sees")).perform watching = .ok answer s' := by
  have hcreate : create aviary.settings = .ok aviary := rfl
  have hrun : Run Operation.Plain aviary watching := by
    refine run_foldl (fun op hop _ => ?_) aviary
    simp only [watch, List.mem_cons, List.not_mem_nil, or_false] at hop
    rcases hop with rfl | rfl | rfl <;> trivial
  have hkind : TypeKind.relationType ≠ .nodeType := by decide
  have hpolicy := deletesByPolicy_of_run (by decide) hcreate hrun hkind "Sees"
  have hwatching : watching.schema.own.contains .relationType "Sees" = true ∧
      watching.settings.deletePolicy = .cascade ∧ watching.graph.edgesOfType .relationType "Sees" ≠ [] := by
    decide +kernel
  obtain ⟨hown, hcascade, hedges⟩ := hwatching
  exact ⟨hcreate, hpolicy, hedges, hpolicy.deleted_iff.mpr ⟨hown, Or.inl hcascade⟩⟩

end Session

end Morphology
