import Morphology.Proofs.Application
import Morphology.Proofs.Edit.Change
import Morphology.Proofs.Graph.Subjects
import Morphology.Proofs.Schema
import Morphology.Session.Operation

/-! Every operation of a session with a sound graph either goes through or leaves the session alone, and the
graph it leaves is sound. -/

namespace Morphology

theorem Session.create_eq_ok {settings : Settings} {s : Session} (h : create settings = .ok s) :
    ∃ tier, settings.schema.build = .ok tier ∧ s = ⟨settings, { shared := tier }, Graph.empty settings.space⟩ := by
  unfold create at h
  split at h
  · cases h
  · rename_i tier htier
    cases h
    exact ⟨tier, htier, rfl⟩

/-- Ids that come from outside name no separator, and edges are built by their own constructors. -/
def Operation.Plain : Operation → Prop
  | .importNode id _ _ => id.IsPlain
  | .change c => c.Plain
  | .changeGuarded _ c => c.Plain
  | _ => True

namespace Action

variable {α : Type} {s : Session}

theorem allOrNothing_edit {x : Edit α} {P : α → Graph → Prop} (h : AllOrNothing x s.graph P) :
    AllOrNothing (edit x) s fun a s' => P a s'.graph := by
  rcases h with ⟨a, g', hx, ha⟩ | ⟨e, hx⟩
  · exact Or.inl ⟨a, { s with graph := g' }, by simp only [edit, hx], ha⟩
  · exact Or.inr ⟨.edit e, by simp only [edit, hx]⟩

theorem succeeds_edit {x : Edit α} {P : α → Graph → Prop} (h : Succeeds x s.graph P) :
    Succeeds (edit x) s fun a s' => P a s'.graph := by
  obtain ⟨a, g', hx, ha⟩ := h
  exact ⟨a, { s with graph := g' }, by simp only [edit, hx], ha⟩

theorem allOrNothing_editSchema (step : Schema → Except SchemaError (α × Schema)) :
    AllOrNothing (editSchema step) s fun _ s' => s'.graph = s.graph := by
  cases hstep : step s.schema with
  | ok p => exact Or.inl ⟨p.1, { s with schema := p.2 }, by simp only [editSchema, hstep], rfl⟩
  | error e => exact Or.inr ⟨.schema e, by simp only [editSchema, hstep]⟩

theorem ensures_edit {x : Edit α} {P : α → Session → Prop}
    (h : Ensures x s.graph fun a g => P a { s with graph := g }) : Ensures (edit x) s P := by
  intro a s' hrun
  unfold edit at hrun
  split at hrun
  · rename_i hx
    cases hrun
    exact h _ _ hx
  · cases hrun

theorem refuses_edit {x : Edit α} {I : Session → Prop} (h : Refuses x s.graph fun g => I { s with graph := g }) :
    Refuses (edit x) s I := by
  intro e s' hrun
  unfold edit at hrun
  split at hrun
  · cases hrun
  · rename_i hx
    cases hrun
    exact h _ _ hx

theorem ensures_editSchema (step : Schema → Except SchemaError (α × Schema)) :
    Ensures (editSchema step) s fun a s' =>
      ∃ schema, step s.schema = .ok (a, schema) ∧ s' = { s with schema := schema } := by
  intro a s' hrun
  unfold editSchema at hrun
  split at hrun
  · rename_i hstep
    cases hrun
    exact ⟨_, hstep, rfl⟩
  · cases hrun

theorem allOrNothing_editTransitions {step : Bool → Graph → Except TransitionError (α × Graph)}
    {P : Graph → Prop} (h : ∀ a g', step s.settings.rejectCycles s.graph = .ok (a, g') → P g') :
    AllOrNothing (editTransitions step) s fun _ s' => P s'.graph := by
  cases hstep : step s.settings.rejectCycles s.graph with
  | ok p => exact Or.inl ⟨p.1, { s with graph := p.2 }, by simp only [editTransitions, hstep], h p.1 p.2 hstep⟩
  | error e => exact Or.inr ⟨.transition e, by simp only [editTransitions, hstep]⟩

/-- A node type that is set is in the spelling of the schema. -/
theorem reads_checkNodeType (update : NodeUpdate) : Reads (checkNodeType update) s fun checked =>
    ∀ t, checked.nodeType = some (some t) → ∃ name d, s.schema.nodeType? name = some d ∧ d.name = t := by
  unfold checkNodeType
  split
  · rename_i name _
    refine .get_bind ?_
    split
    · rename_i d hd
      refine Reads.pure fun t ht => ⟨name, d, hd, ?_⟩
      exact Option.some.inj (Option.some.inj ht)
    · exact .throw _
  · rename_i hnone
    exact Reads.pure fun t ht => absurd ht (hnone t)

theorem reads_typedValue (name value : String) : Reads (typedValue name value) s fun typed =>
    ∀ d, s.schema.attributeType? name = some d → Grounding.checkValue d value 0 = (typed, []) := by
  refine .get_bind ?_
  split
  · rename_i hnone
    exact Reads.pure fun d hd => by rw [hnone] at hd; cases hd
  · rename_i d hd
    split
    · rename_i typed hchecked
      refine Reads.pure fun d' hd' => ?_
      rw [hd] at hd'
      cases hd'
      exact hchecked
    · exact .throw _

theorem edgesOfType_spec {g : Graph} (h : g.Filed) (kind : TypeKind) (name : String) :
    (g.edgesOfType kind name).Nodup ∧ ∀ e ∈ g.edgesOfType kind name, g.hasEdge e = true := by
  cases kind with
  | nodeType => exact ⟨.nil, fun e he => nomatch he⟩
  | relationType =>
    refine ⟨(Index.nodup_items _ _).map fun a b hab => by simpa using hab, fun e he => ?_⟩
    obtain ⟨id, hid, rfl⟩ := List.mem_map.mp he
    obtain ⟨r, hr, -⟩ := h.relationType.mp hid
    exact Table.contains_iff.mpr ⟨r, hr⟩
  | attributeType =>
    refine ⟨(Index.nodup_items _ _).map fun a b hab => by simpa using hab, fun e he => ?_⟩
    obtain ⟨id, hid, rfl⟩ := List.mem_map.mp he
    obtain ⟨a, ha, -⟩ := h.attributeType.mp hid
    exact Table.contains_iff.mpr ⟨a, ha⟩

/-- A type may be deleted if all of its edges may. -/
theorem allOrNothing_deleteType {P : Graph → Prop} (kind : TypeKind) (name : String)
    (hedges : ∀ u, s.checkDeletable kind name = .ok u →
      Succeeds (Edit.deleteEdges (s.graph.edgesOfType kind name)) s.graph fun _ g' => P g') :
    AllOrNothing (deleteType kind name) s fun _ s' => P s'.graph := by
  refine .get_bind ?_
  split
  · exact .throw _
  · rename_i hdeletable
    refine (allOrNothing_editSchema _).bind fun d s₁ hs₁ => ?_
    have hdeleted : Succeeds (edit (Edit.deleteEdges (s.graph.edgesOfType kind name))) s₁ fun _ s' => P s'.graph :=
      succeeds_edit (hs₁ ▸ hedges _ hdeletable)
    exact hdeleted.bind fun _ _ h' => .pure h'

theorem ensures_deleteType {P : Graph → Prop} (kind : TypeKind) (name : String)
    (hedges : ∀ u, s.checkDeletable kind name = .ok u →
      Ensures (Edit.deleteEdges (s.graph.edgesOfType kind name)) s.graph fun _ g' => P g') :
    Ensures (deleteType kind name) s fun _ s' =>
      ∃ g', s' = { s with schema := s.schema.erase kind name, graph := g' } ∧ P g' := by
  refine .get_bind ?_
  split
  · exact .throw _
  · rename_i hdeletable
    refine (ensures_editSchema _).bind fun d s₁ ⟨schema, hschema, hs₁⟩ => ?_
    have hschema := Schema.delete_eq_ok hschema
    subst hschema hs₁
    have hdeleted : Ensures (edit (Edit.deleteEdges (s.graph.edgesOfType kind name)))
        { s with schema := s.schema.erase kind name } fun _ s' =>
          ∃ g', s' = { s with schema := s.schema.erase kind name, graph := g' } ∧ P g' :=
      ensures_edit ((hedges _ hdeletable).mono fun _ g' hg' => ⟨g', rfl, hg'⟩)
    exact hdeleted.bind fun _ _ h' => .pure h'

variable (h : s.graph.Sound)

include h

theorem allOrNothing_run (guard : Option Guard) (c : Change) :
    AllOrNothing (edit (c.run guard)) s fun outcome s' => c.Post s.graph outcome s'.graph :=
  allOrNothing_edit (Change.allOrNothing_run h guard c)

theorem allOrNothing_updateNode (o : NodeId) (update : NodeUpdate) :
    AllOrNothing (updateNode o update) s fun _ s' => s'.graph.Sound :=
  (reads_checkNodeType update).bind fun update _ =>
    (allOrNothing_run h none (.updateNode o update)).mono fun _ _ h' => h'.1 trivial

theorem allOrNothing_updateAttribute (id : AttributeId) (value : String) (modifiers : AttributeModifiers) :
    AllOrNothing (updateAttribute id value modifiers) s fun _ s' => s'.graph.Sound := by
  refine .get_bind ?_
  split
  · exact .throw _
  · rename_i a _
    refine (reads_typedValue a.name value).bind fun typed _ => ?_
    exact (allOrNothing_run h none (.updateAttribute id value typed modifiers)).mono fun _ _ h' => h'.1 trivial

theorem sound_deleteType (kind : TypeKind) (name : String) :
    AllOrNothing (deleteType kind name) s fun _ s' => s'.graph.Sound := by
  obtain ⟨hnodup, hthere⟩ := edgesOfType_spec h.filed kind name
  have hdeleted := Edit.succeeds_deleteEdges h hnodup hthere
  exact allOrNothing_deleteType kind name fun _ _ => hdeleted.mono fun _ _ => And.left

theorem allOrNothing_changeSchema (c : SchemaChange) :
    AllOrNothing (changeSchema c) s fun _ s' => s'.graph.Sound := by
  have hstep (step : Schema → Except SchemaError (Option Definition × Schema)) :
      AllOrNothing (editSchema step) s fun _ s' => s'.graph.Sound :=
    (allOrNothing_editSchema step).mono fun _ s' hs' => hs' ▸ h
  cases c with
  | create d => exact hstep fun schema => schema.change (.create d)
  | update d => exact hstep fun schema => schema.change (.update d)
  | delete kind name => exact (sound_deleteType h kind name).map fun _ _ h' => h'

end Action

namespace Graph

variable {g g' : Graph}

theorem Sound.withTransitions (h : g.Sound) (ts : Table TransitionId Transition) :
    Sound { g with transitions := ts } :=
  { h with covered := h.covered }

theorem createTransition_eq_ok {rejectCycles : Bool} {draft : TransitionDraft} {id : TransitionId}
    (h : g.createTransition rejectCycles draft = .ok (id, g')) : ∃ t, g' = g.putTransition t := by
  simp only [createTransition] at h
  split at h
  · cases h
  · split at h
    · cases h
    · simp only [bind, Except.bind] at h
      split at h
      · cases h
      · cases h
        exact ⟨_, rfl⟩

theorem updateTransition_eq_ok {rejectCycles : Bool} {id : TransitionId} {update : TransitionUpdate}
    (h : g.updateTransition rejectCycles id update = .ok g') : ∃ t, g' = g.putTransition t := by
  simp only [updateTransition] at h
  split at h
  · cases h
  · simp only [bind, Except.bind] at h
    split at h
    · cases h
    · cases h
      exact ⟨_, rfl⟩

theorem updateTransition_map_eq_ok {rejectCycles : Bool} {id : TransitionId} {update : TransitionUpdate} {u : Unit}
    (h : (g.updateTransition rejectCycles id update).map (fun g => ((), g)) = .ok (u, g')) :
    ∃ t, g' = g.putTransition t := by
  obtain ⟨g₁, hu, ⟨⟩⟩ := map_eq_ok.mp h
  exact updateTransition_eq_ok hu

theorem deleteTransition_eq_ok {id : TransitionId} {t : Transition}
    (h : g.deleteTransition id = .ok (t, g')) : g' = { g with transitions := g.transitions.erase id } := by
  unfold deleteTransition at h
  split at h
  · cases h
  · cases h
    rfl

end Graph

namespace Operation

theorem allOrNothing_perform {s : Session} (h : s.graph.Sound) (op : Operation) :
    AllOrNothing op.perform s fun _ s' => op.Plain → s'.graph.Sound := by
  cases op with
  | apply text =>
    refine AllOrNothing.map (P := fun _ s' => s'.graph.Sound) ?_ fun _ _ h' _ => h'
    exact (Succeeds.modifyGet ((Graph.outlastsDocuments_sound s.schema).applyDocument h _)).allOrNothing
  | applyDocument document =>
    refine AllOrNothing.map (P := fun _ s' => s'.graph.Sound) ?_ fun _ _ h' _ => h'
    exact (Succeeds.modifyGet ((Graph.outlastsDocuments_sound s.schema).applyDocument h document)).allOrNothing
  | resolve name qualifier => exact Or.inl ⟨_, _, rfl, fun _ => h.resolve name qualifier⟩
  | importNode id name qualifier => exact Or.inl ⟨_, _, rfl, fun hid => h.importNode hid name qualifier⟩
  | updateNode node update => exact (Action.allOrNothing_updateNode h node update).map fun _ _ h' _ => h'
  | updateAttribute id value modifiers =>
    exact (Action.allOrNothing_updateAttribute h id value modifiers).map fun _ _ h' _ => h'
  | change c => exact (Action.allOrNothing_run h none c).map fun _ _ h' => h'.1
  | changeGuarded guard c =>
    exact (AllOrNothing.get_bind (Action.allOrNothing_run h _ c)).map fun _ _ h' => h'.1
  | createTransition draft =>
    refine (Action.allOrNothing_editTransitions (P := Graph.Sound) fun id g' hok => ?_).map fun _ _ h' _ => h'
    obtain ⟨t, rfl⟩ := Graph.createTransition_eq_ok hok
    exact h.withTransitions _
  | updateTransition id update =>
    refine (Action.allOrNothing_editTransitions (P := Graph.Sound) fun _ g' hok => ?_).map fun _ _ h' _ => h'
    obtain ⟨t, rfl⟩ := Graph.updateTransition_map_eq_ok hok
    exact h.withTransitions _
  | deleteTransition id =>
    refine (Action.allOrNothing_editTransitions (P := Graph.Sound) fun _ g' hok => ?_).map fun _ _ h' _ => h'
    rw [Graph.deleteTransition_eq_ok hok]
    exact h.withTransitions _
  | changeSchema c => exact (Action.allOrNothing_changeSchema h c).map fun _ _ h' _ => h'

end Operation

end Morphology
