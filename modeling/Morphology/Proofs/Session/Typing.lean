import Morphology.Proofs.Edit.Typing
import Morphology.Proofs.Schema.Building
import Morphology.Proofs.Session.Attainable

/-! What the schema of a session tells of its graph. Every name of a type resolves as long as no deletion of a type
stops half way, and where types are kept while they are used, or no id has a colon in it, none does. -/

namespace Morphology

open Text

/-- The schema is asked before anything is written: edges come from documents only. -/
def Operation.Checked : Operation → Prop
  | .change c => c.Neutral
  | .changeGuarded _ c => c.Neutral
  | _ => True

def Operation.DeletesType : Operation → Prop
  | .changeSchema (.delete _ _) => True
  | _ => False

namespace Session

/-- The operation changes nothing if it is refused. -/
def Whole (s : Session) (op : Operation) : Prop := ∀ e s', op.perform s = .error e s' → s' = s

/-- The stored attributes are as `fits` demands of the new definition of their type. -/
def Refits (fits : AttributeType → Attribute → Prop) (s : Session) : Operation → Prop
  | .changeSchema (.update (.attributeType d)) => ∀ id a, s.graph.attributes.get? id = some a →
      fold a.name = fold d.name → fits { d with name := collapse d.name } a
  | _ => True

structure Typed (fits : AttributeType → Attribute → Prop) (s : Session) : Prop where
  keyed : s.schema.Keyed
  framed : s.graph.Framed
  typed : s.graph.Typed fits s.schema

variable {fits : AttributeType → Attribute → Prop} {s : Session} {kind : TypeKind} {name : String}

theorem typed_of_create {settings : Settings} (h : create settings = .ok s) : s.Typed fits := by
  obtain ⟨tier, hbuild, rfl⟩ := create_eq_ok h
  have hown : SchemaTier.Keyed {} := SchemaTier.keyed_empty
  exact ⟨⟨SchemaPlan.keyed_build hbuild, hown⟩, Graph.framed_empty _, Graph.typed_empty fits _ _⟩

theorem blockers_of_checkDeletable {u : Unit} (h : s.checkDeletable kind name = .ok u) : s.blockers kind name = 0 := by
  unfold checkDeletable at h
  split at h
  · cases h
  · split at h
    · cases h
    · rename_i hnone
      exact Nat.eq_zero_of_not_pos hnone
  · cases h

end Session

theorem Graph.Typed.mem_edgesOfType {fits : AttributeType → Attribute → Prop} {schema : Schema} {g : Graph}
    (h : g.Typed fits schema) {e : EdgeRef} {w : EdgeRecord} (hw : g.record? e = some w) {name : String}
    (hname : fold w.name = fold name) : e ∈ g.edgesOfType w.typeKind name := by
  obtain ⟨rfl, hx⟩ := h.listed hw
  cases w with
  | relation r =>
    refine List.mem_map_of_mem ?_
    rw [relationsOfType, ← hname]
    exact hx.2.2
  | attr a =>
    refine List.mem_map_of_mem ?_
    rw [attributesOfType, ← hname]
    exact hx

theorem Graph.nodeType_of_nodesOfType {g : Graph} {name : String} (h : g.nodesOfType name = []) {o : NodeId}
    {t : String} (ht : Grounding.nodeTypeOf g o = some t) : fold t ≠ fold name := by
  obtain ⟨n, hn, ht⟩ := Option.bind_eq_some_iff.mp ht
  intro hname
  have hkept := List.filter_eq_nil_iff.mp h n (Table.mem_values.mpr ⟨o, hn⟩)
  rw [ht, Option.map_some, hname] at hkept
  exact hkept (beq_self_eq_true _)

namespace Action

open Edit Morphology.Graph Session

variable {fits : AttributeType → Attribute → Prop} {s : Session}

theorem typed_deleteType (h : s.Typed fits) (kind : TypeKind) (name : String) :
    Ensures (deleteType kind name) s fun _ s' => s'.Typed fits := by
  have hI := (outlastsChanges_framed).toOutlasts.and (outlastsChanges_typed fits s.schema).toOutlasts
  have hkept := (hI.leaves_deleteEdges ⟨h.framed, h.typed⟩ (s.graph.edgesOfType kind name)).ensures
  have hgone := within_deleteEdges s.graph (s.graph.edgesOfType kind name)
  refine (ensures_deleteType (P := fun g' => g'.Framed ∧ g'.Typed fits (s.schema.erase kind name)) kind name
    fun _ hdeletable => ?_).mono ?_
  · have hblockers := blockers_of_checkDeletable hdeletable
    refine (hkept.and hgone).mono fun _ g' ⟨⟨hframed, htyped⟩, hwithin, hnone⟩ => ?_
    refine ⟨hframed, htyped.erase (fun e w hw hkey => ?_) fun o t ht hkey => ?_⟩
    · obtain ⟨rfl, hname⟩ := hkey
      rw [hnone e (h.typed.mem_edgesOfType (hwithin.record hw) hname)] at hw
      cases hw
    · obtain ⟨rfl, hname⟩ := hkey
      have hunused : s.graph.nodesOfType name = [] := List.length_eq_zero_iff.mp hblockers
      exact nodeType_of_nodesOfType hunused (hwithin.typed ht) hname
  · rintro _ _ ⟨g', rfl, hframed, htyped⟩
    exact ⟨h.keyed.erase kind name, hframed, htyped⟩

/-- A type that may be deleted where types are kept while they are used has no edges to delete with it, and edges that
are filed correctly can all be deleted. -/
theorem succeeds_deleteEdgesOfType (h : s.settings.deletePolicy = .reject ∨ s.graph.Filed) {kind : TypeKind}
    {name : String} {u : Unit} (hdeletable : s.checkDeletable kind name = .ok u) :
    Succeeds (deleteEdges (s.graph.edgesOfType kind name)) s.graph fun _ _ => True := by
  rcases h with hpolicy | hfiled
  · have hnone : s.graph.edgesOfType kind name = [] := by
      have hblockers := blockers_of_checkDeletable hdeletable
      cases kind with
      | nodeType => rfl
      | relationType =>
        simp only [blockers, hpolicy] at hblockers
        exact List.length_eq_zero_iff.mp hblockers
      | attributeType =>
        simp only [blockers, hpolicy] at hblockers
        exact List.length_eq_zero_iff.mp hblockers
    rw [hnone]
    exact .pure trivial
  · obtain ⟨hnodup, hthere⟩ := edgesOfType_spec hfiled kind name
    exact succeeds_deleteEdges_of_hasEdge hnodup hthere

theorem ensures_update (d : Definition) : Ensures (changeSchema (.update d)) s fun _ s' =>
    s.schema.shared.contains d.tidied.kind d.tidied.name = false ∧
      s' = { s with schema := s.schema.put d.tidied } := by
  refine (ensures_editSchema fun schema => schema.change (.update d)).mono ?_
  rintro _ _ ⟨schema, hs, rfl⟩
  obtain ⟨_, hupdated, ⟨⟩⟩ := map_eq_ok.mp hs
  obtain ⟨hshared, rfl⟩ := Schema.update_eq_ok hupdated
  exact ⟨hshared, rfl⟩

variable (h : s.Typed fits)

include h

theorem leaves_typed_edit {α : Type} {x : Edit α} (hf : Leaves x s.graph Framed)
    (ht : Leaves x s.graph (Graph.Typed fits s.schema)) : Leaves (edit x) s (Session.Typed fits) :=
  leaves_edit ((hf.and ht).mono fun _ ⟨hf, ht⟩ => ⟨h.keyed, hf, ht⟩)

theorem typed_run (guard : Option Guard) {c : Change} (hc : c.Neutral) :
    Leaves (edit (c.run guard)) s (Session.Typed fits) :=
  leaves_typed_edit h (Edit.framed_run h.framed guard c)
    ((outlastsChanges_typed fits s.schema).leaves_run h.framed h.typed guard hc)

theorem typed_updateNode (o : NodeId) (update : NodeUpdate) :
    Leaves (updateNode o update) s (Session.Typed fits) := by
  refine .reads_bind (reads_checkNodeType update) h fun update hupdate => ?_
  refine leaves_typed_edit h (Edit.framed_run h.framed none _) ?_
  refine .reads_bind (Guard.reads_check none _) h.typed fun _ _ => ?_
  refine (h.typed.leaves_updateNode o fun t ht => ?_).bind fun _ _ h' => .pure h'
  obtain ⟨name, d, hd, rfl⟩ := hupdate t ht
  refine ⟨.nodeType d, ?_⟩
  rw [Schema.find?_nodeType, h.keyed.nodeType?_name hd, Option.map_some]

theorem typed_updateAttribute (hfits : ∀ d a, AttributeType.Accepts d a → fits d a) (id : AttributeId) (value : String)
    (modifiers : AttributeModifiers) : Leaves (updateAttribute id value modifiers) s (Session.Typed fits) := by
  refine .get_bind ?_
  split
  · exact .throw h
  · rename_i a ha
    refine .reads_bind (reads_typedValue a.name value) h fun typed htyped => ?_
    refine leaves_typed_edit h (Edit.framed_run h.framed none _) ?_
    refine .reads_bind (Guard.reads_check none _) h.typed fun _ _ => ?_
    refine (h.typed.leaves_updateAttribute fun a' d ha' hd => ?_).bind fun _ _ h' => .pure h'
    rw [ha] at ha'
    cases ha'
    exact hfits _ _ (Grounding.accepts_of_checkValue (htyped d hd) rfl rfl)

theorem typed_create (d : Definition) :
    Leaves (changeSchema (.create d)) s (Session.Typed fits) := by
  refine leaves_create h fun hfree => ?_
  refine ⟨h.keyed.put _, h.framed, h.typed.put (Schema.shared_of_find?_none hfree) fun e w hw hkind hname => ?_⟩
  obtain ⟨d₀, hd₀, -⟩ := h.typed.edge hw
  rw [hkind, Schema.find?_congr hname, hfree] at hd₀
  cases hd₀

theorem typed_update {d : Definition} (hrefits : s.Refits fits (.changeSchema (.update d))) :
    Leaves (changeSchema (.update d)) s (Session.Typed fits) := by
  refine leaves_update h fun _ hshared => ?_
  refine ⟨h.keyed.put _, h.framed, h.typed.put hshared fun e w hw hkind hname => ?_⟩
  obtain ⟨rfl, -⟩ := h.typed.listed hw
  cases d with
  | attributeType d =>
    cases w with
    | relation r => cases hkind
    | attr a =>
      obtain ⟨_, ha, ⟨⟩⟩ := Option.map_eq_some_iff.mp hw
      exact hrefits a.id a ha (hname.trans (fold_collapse d.name))
  | nodeType d => trivial
  | relationType d => trivial

end Action

namespace Operation

open Morphology.Graph

variable {fits : AttributeType → Attribute → Prop} {s : Session}

theorem typed_perform (hfits : ∀ d a, AttributeType.Accepts d a → fits d a) (h : s.Typed fits) {op : Operation}
    (hc : op.Checked) (hwhole : op.DeletesType → s.Whole op) (hrefits : s.Refits fits op) :
    Leaves op.perform s (Session.Typed fits) := by
  have hdocument (document : Document) : Session.Typed fits (s.applyDocument document).2 := by
    obtain ⟨hf, ht⟩ := (outlastsDocuments_typed h.keyed hfits).applyDocument ⟨h.framed, h.typed⟩ document
    exact ⟨h.keyed, hf, ht⟩
  have htransitions (ts : Table TransitionId Transition) :
      Session.Typed fits { s with graph := { s.graph with transitions := ts } } :=
    ⟨h.keyed, h.framed.withTransitions ts, h.typed.withTransitions ts⟩
  cases op with
  | apply text => exact hdocument (Document.parse text)
  | applyDocument document => exact hdocument document
  | resolve name qualifier =>
    exact ⟨h.keyed, h.framed.resolve name qualifier, h.typed.resolve h.framed name qualifier⟩
  | importNode id name qualifier =>
    exact ⟨h.keyed, h.framed.importNode id name qualifier, h.typed.importNode h.framed id name qualifier⟩
  | updateNode node update => exact (Action.typed_updateNode h node update).map
  | updateAttribute id value modifiers => exact (Action.typed_updateAttribute h hfits id value modifiers).map
  | change c => exact (Action.typed_run h none hc).map
  | changeGuarded guard c => exact Leaves.map (.get_bind (Action.typed_run h _ hc))
  | createTransition draft => exact (Action.leaves_createTransition h htransitions draft).map
  | updateTransition id update => exact (Action.leaves_updateTransition h htransitions id update).map
  | deleteTransition id => exact (Action.leaves_deleteTransition h htransitions id).map
  | changeSchema c =>
    cases c with
    | create d => exact (Action.typed_create h d).map
    | update d => exact (Action.typed_update h hrefits).map
    | delete kind name =>
      have hdeleted : Ensures (Operation.changeSchema (.delete kind name)).perform s fun _ s' => s'.Typed fits :=
        Ensures.map (Ensures.map (Action.typed_deleteType h kind name) fun _ _ h' => h') fun _ _ h' => h'
      exact hdeleted.leaves fun e s' he => (hwhole trivial e s' he).symm ▸ h

end Operation

namespace Session

variable {fits : AttributeType → Attribute → Prop} {settings : Settings} {s₀ s s' : Session}

theorem Typed.after (hfits : ∀ d a, AttributeType.Accepts d a → fits d a) (h : s.Typed fits) {op : Operation}
    (hc : op.Checked) (hwhole : op.DeletesType → s.Whole op) (hrefits : s.Refits fits op) :
    (s.after op).Typed fits :=
  after_of_leaves (Operation.typed_perform hfits h hc hwhole hrefits)

theorem typed_of_run (hfits : ∀ d a, AttributeType.Accepts d a → fits d a) (hcreate : create settings = .ok s₀)
    (hrun : RunWhere (fun s op => op.Checked ∧ (op.DeletesType → s.Whole op) ∧ s.Refits fits op) s₀ s) :
    s.Typed fits :=
  hrun.invariant (typed_of_create hcreate) fun _ _ h ⟨hc, hwhole, hrefits⟩ => h.after hfits hc hwhole hrefits

theorem refits_trivial (s : Session) (op : Operation) : s.Refits (fun _ _ => True) op := by
  unfold Refits
  split
  · exact fun _ _ _ _ => trivial
  · trivial

theorem whole_of_deletesType (h : s.settings.deletePolicy = .reject ∨ s.graph.Filed) {op : Operation}
    (hop : op.DeletesType) : s.Whole op := by
  cases op with
  | changeSchema c =>
    cases c with
    | delete kind name =>
      have hdeleted : AllOrNothing (Action.deleteType kind name) s fun _ _ => True :=
        Action.allOrNothing_deleteType kind name fun _ => Action.succeeds_deleteEdgesOfType h
      have hperformed : AllOrNothing (Operation.changeSchema (.delete kind name)).perform s fun _ _ => True :=
        (hdeleted.map (φ := some) fun _ _ h' => h').map fun _ _ h' => h'
      exact fun e s' he => hperformed.unchanged he
    | create d => exact hop.elim
    | update d => exact hop.elim
  | _ => exact hop.elim

/-- Every name of a type stands for a definition as long as no deletion of a type stops half way; and none does where
types are kept while they are used, or ids are plain. -/
theorem resolved_of_run (hcreate : create settings = .ok s₀)
    (hrun : RunWhere (fun s op => op.Checked ∧ (op.DeletesType → s.Whole op)) s₀ s) :
    (∀ id r, s.graph.relations.get? id = some r → ∃ d, s.schema.relationType? r.name = some d) ∧
    (∀ id a, s.graph.attributes.get? id = some a → ∃ d, s.schema.attributeType? a.name = some d) ∧
    (∀ o n t, s.graph.nodes.get? o = some n → n.nodeType = some t → ∃ d, s.schema.nodeType? t = some d) ∧
    ∀ op, op.DeletesType → s.settings.deletePolicy = .reject ∨ s.Reachable → s.Whole op := by
  have h : s.Typed fun _ _ => True := by
    refine typed_of_run (fun _ _ _ => trivial) hcreate (Relation.ReflTransGen.mono ?_ _ _ hrun)
    rintro s s' ⟨op, ⟨hc, hwhole⟩, hafter⟩
    exact ⟨op, ⟨hc, hwhole, refits_trivial s op⟩, hafter⟩
  refine ⟨fun id r hr => ?_, fun id a ha => ?_, fun o n t hn ht => ?_, fun op hop hs => ?_⟩
  · exact Schema.resolves_relation.mp (h.typed.edge (e := .relation id) (by rw [Graph.record?, hr, Option.map_some]))
  · obtain ⟨d, hd, -⟩ :=
      Schema.resolves_attr.mp (h.typed.edge (e := .attr id) (by rw [Graph.record?, ha, Option.map_some]))
    exact ⟨d, hd⟩
  · obtain ⟨d, hd⟩ := h.typed.node (o := o) (t := t) (by rw [Grounding.nodeTypeOf, hn]; exact ht)
    rw [Schema.find?_nodeType] at hd
    obtain ⟨d, hd, -⟩ := Option.map_eq_some_iff.mp hd
    exact ⟨d, hd⟩
  · exact whole_of_deletesType (hs.imp_right fun hr => hr.sound.filed) hop

def aviary : Session := fresh { deletePolicy := .cascade } ⟨{}, {}⟩

def watch : List Operation :=
  [.changeSchema (.create (.relationType { name := "eats" })),
    .changeSchema (.create (.relationType { name := "sees" })),
    .apply "# Crow\n:::cnl\n<Eats> worm\n<sees> worm\n"]

/-- What is seen is not asked any more. -/
def watched : Session := (watch.foldl Session.after aviary).after (.changeSchema (.delete .relationType "Sees"))

/-- Of the two relations one goes with its type, and the other one stays. -/
theorem resolved_watched :
    create aviary.settings = .ok aviary ∧
      (watched.graph.relations.size = 1 ∧ watched.schema.own.relationTypes.size = 1) ∧
      ∀ id r, watched.graph.relations.get? id = some r → ∃ d, watched.schema.relationType? r.name = some d := by
  have hwatch : ∀ op ∈ watch, op.Plain ∧ op.Checked ∧ ¬op.DeletesType := by
    simp [watch, Operation.Plain, Operation.Checked, Operation.DeletesType]
  have hplain : Run Operation.Plain aviary (watch.foldl Session.after aviary) :=
    run_foldl (fun op hop _ => (hwatch op hop).1) aviary
  have hreachable : (watch.foldl Session.after aviary).Reachable := ⟨aviary.settings, ⟨{}, {}⟩, by decide, hplain⟩
  have hrun : RunWhere (fun s op => op.Checked ∧ (op.DeletesType → s.Whole op)) aviary
      (watch.foldl Session.after aviary) := by
    refine run_foldl (fun op hop _ => ?_) aviary
    obtain ⟨-, hchecked, hkeeps⟩ := hwatch op hop
    exact ⟨hchecked, fun hdeletes => absurd hdeletes hkeeps⟩
  have hcreate : create aviary.settings = .ok aviary := rfl
  refine ⟨hcreate, by decide +kernel, (resolved_of_run hcreate (hrun.tail ⟨_, ?_, rfl⟩)).1⟩
  exact ⟨trivial, whole_of_deletesType (Or.inr hreachable.sound.filed)⟩

/-! ## Values -/

/-- Every attribute has a value that the definition of its type accepts. -/
def ValuesFit (s : Session) : Prop := ∀ id a, s.graph.attributes.get? id = some a →
  ∃ d, s.schema.attributeType? a.name = some d ∧ d.Accepts a

theorem Typed.valuesFit (h : s.Typed AttributeType.Accepts) : s.ValuesFit := fun id a ha =>
  Schema.resolves_attr.mp (h.typed.edge (e := .attr id) (by rw [Graph.record?, ha, Option.map_some]))

/-- Attributes keep values that fit as long as no definition is put in place of another one that they do not fit; and
after such an update they fit only if they did before. -/
theorem valuesFit_of_run (hcreate : create settings = .ok s₀)
    (hrun : RunWhere (fun s op => op.Checked ∧ (op.DeletesType → s.Whole op) ∧ s.Refits AttributeType.Accepts op)
      s₀ s) :
    s.ValuesFit ∧ ∀ d answer s', (Operation.changeSchema (.update (.attributeType d))).perform s = .ok answer s' →
      (s'.ValuesFit ↔ s.Refits AttributeType.Accepts (.changeSchema (.update (.attributeType d)))) := by
  have h : s.Typed AttributeType.Accepts := typed_of_run (fun _ _ => id) hcreate hrun
  refine ⟨h.valuesFit, fun d answer s' hr => ⟨fun hfit id a ha hname => ?_, fun hrefits => ?_⟩⟩
  · have hput : Ensures (Operation.changeSchema (.update (.attributeType d))).perform s fun _ s' =>
        s.schema.shared.contains .attributeType (collapse d.name) = false ∧
          s' = { s with schema := s.schema.put (Definition.attributeType d).tidied } :=
      (Action.ensures_update (.attributeType d)).map fun _ _ h' => h'
    obtain ⟨hshared, rfl⟩ := hput answer s' hr
    obtain ⟨d', hd', haccepts⟩ := hfit id a ha
    have hfound : (s.schema.put (Definition.attributeType d).tidied).find? .attributeType a.name =
        some (.attributeType d') := by rw [Schema.find?_attributeType, hd', Option.map_some]
    rw [Schema.find?_put hshared, if_pos ⟨rfl, hname.trans (fold_collapse d.name).symm⟩] at hfound
    cases hfound
    exact haccepts
  · have hs' : (s.after (.changeSchema (.update (.attributeType d)))).Typed AttributeType.Accepts :=
      h.after (fun _ _ => id) trivial nofun hrefits
    rw [Session.after, hr] at hs'
    exact hs'.valuesFit

def ringing : List Operation :=
  [.changeSchema (.create (.attributeType { name := "age", dataType := .number })),
    .apply "# Crow\n:::cnl\nhas age: 3\n"]

def fewYears : AttributeType := { name := "Age", dataType := .number, allowedValues := ["3", "4"] }

/-- The definition of ages is replaced by a narrower one. -/
def ringed : Session := (ringing.foldl Session.after aviary).after (.changeSchema (.update (.attributeType fewYears)))

theorem valuesFit_ringed : create aviary.settings = .ok aviary ∧ (ringed.graph.attributes.size = 1 ∧
    ringed.schema.own.attributeTypes.values.map (·.allowedValues) = [["3", "4"]]) ∧ ringed.ValuesFit := by
  have hringing : ∀ op ∈ ringing, op.Checked ∧ ¬op.DeletesType ∧ ∀ s : Session, s.Refits AttributeType.Accepts op := by
    simp [ringing, Operation.Checked, Operation.DeletesType, Refits]
  have hrun : RunWhere (fun s op => op.Checked ∧ (op.DeletesType → s.Whole op) ∧ s.Refits AttributeType.Accepts op)
      aviary (ringing.foldl Session.after aviary) := by
    refine run_foldl (fun op hop s => ?_) aviary
    obtain ⟨hchecked, hkeeps, hrefits⟩ := hringing op hop
    exact ⟨hchecked, fun hdeletes => absurd hdeletes hkeeps, hrefits s⟩
  have hall : ∀ a ∈ (ringing.foldl Session.after aviary).graph.attributes.values, fewYears.Accepts a := by
    decide +kernel
  have hcreate : create aviary.settings = .ok aviary := rfl
  refine ⟨hcreate, by decide +kernel, (valuesFit_of_run hcreate (hrun.tail ⟨_, ?_, rfl⟩)).1⟩
  exact ⟨trivial, nofun, fun id a ha _ => hall a (Table.mem_values.mpr ⟨id, ha⟩)⟩

end Session

end Morphology
