import Morphology.Proofs.Edit.Upsert
import Morphology.Proofs.Session.Typing

/-! Types in several spellings. An edge has the name of its type as the schema spells it. As long as no update gives
another spelling to a type that edges have already, stating an edge again, in any spelling, comes upon the edge that is
there; after such an update it makes a second one. -/

namespace Morphology

open Text

namespace EdgeSubject

def typeKind (x : EdgeSubject) : TypeKind := if x.target.isSome then .relationType else .attributeType

/-- What all spellings of a subject have in common. -/
def folded (x : EdgeSubject) : EdgeSubject := { x with name := fold x.name }

theorem typeKind_subject (w : EdgeRecord) : w.subject.typeKind = w.typeKind := by cases w <;> rfl

theorem name_subject (w : EdgeRecord) : w.subject.name = w.name := by cases w <;> rfl

variable {x y : EdgeSubject}

theorem eq_of_folded (h : x.folded = y.folded) (hname : x.name = y.name) : x = y := by
  obtain ⟨a, s, b⟩ := x
  obtain ⟨c, t, d⟩ := y
  obtain ⟨rfl, -, rfl⟩ := EdgeSubject.mk.inj h
  obtain rfl : s = t := hname
  rfl

/-- Ids tell spellings apart. -/
theorem eq_of_ref_of_folded (href : x.ref = y.ref) (h : x.folded = y.folded) : x = y := by
  obtain ⟨howner, -, htarget⟩ := EdgeSubject.mk.inj h
  exact (eq_or_clashes href).resolve_right fun hclash => hclash.1.elim (absurd howner) (absurd htarget)

end EdgeSubject

/-- The name is that of a definition, as it is spelled there. -/
def Schema.Spells (schema : Schema) (x : EdgeSubject) : Prop :=
  ∃ d, schema.find? x.typeKind x.name = some d ∧ d.name = x.name

theorem Schema.Spells.eq_of_folded {schema : Schema} {x y : EdgeSubject} (hx : schema.Spells x) (hy : schema.Spells y)
    (h : x.folded = y.folded) : x = y := by
  obtain ⟨d, hd, hdx⟩ := hx
  obtain ⟨d', hd', hdy⟩ := hy
  obtain ⟨-, hname, htarget⟩ := EdgeSubject.mk.inj h
  have hkind : x.typeKind = y.typeKind := by rw [EdgeSubject.typeKind, htarget, EdgeSubject.typeKind]
  rw [hkind, Schema.find?_congr hname, hd'] at hd
  cases hd
  exact EdgeSubject.eq_of_folded h (hdx.symm.trans hdy)

/-- The statement, made of `o`, says again what the edge says. -/
def Statement.Restates (g : Graph) (o : NodeId) : Statement → EdgeRecord → Prop
  | .relation s, .relation r => r.source = o ∧ fold r.name = fold s.name ∧
      (g.lookup s.targetName s.targetQualifier).map (·.id) = some r.target
  | .attr s, .attr a => a.owner = o ∧ fold a.name = fold s.name
  | _, _ => False

namespace Graph

open Grounding

/-- No two edges are on one subject, in whatever spelling. -/
def OnePerSubject (g : Graph) : Prop := ∀ e e' w w', g.record? e = some w → g.record? e' = some w' →
  w.subject.folded = w'.subject.folded → e = e'

variable {schema : Schema} {g : Graph} {o : NodeId} {line : Nat × Statement} {e : EdgeRef} {w : EdgeRecord}
  {p : NodeId → Prop} {k : MorphId}

theorem Composed.onePerSubject (h : g.Composed p schema.Spells) : g.OnePerSubject := by
  intro e e' w w' hw hw' hfolded
  obtain ⟨he, -, hspells⟩ := h.edge e w hw
  obtain ⟨he', -, hspells'⟩ := h.edge e' w' hw'
  rw [he, he', hspells.eq_of_folded hspells' hfolded]

theorem Framed.lookup_id (h : g.Framed) (name : String) (qualifier : Option String) :
    (g.lookup name qualifier).map (·.id) = g.names.byName.get? (.ofName name qualifier) := by
  cases hk : g.names.byName.get? (.ofName name qualifier) with
  | none => rw [lookup_unknown hk, Option.map_none]
  | some id =>
    obtain ⟨n, hlookup, -, rfl⟩ := h.lookup_known hk
    rw [hlookup, Option.map_some]

/-- What an edge is about that nothing is objected to. -/
theorem subject_record {n : Nat} {s : Statement} (he : (ofStatement schema g o s n).errors.isEmpty = true)
    (g₁ : Graph) :
    (∃ r d, s = .relation r ∧ schema.relationType? r.name = some d ∧
      ((ofStatement schema g o s n).edge.record g₁).subject =
        ⟨o, d.name, some (resolveTarget g₁ (targetOf g r)).1⟩) ∨
    ∃ a d, s = .attr a ∧ schema.attributeType? a.name = some d ∧
      ((ofStatement schema g o s n).edge.record g₁).subject = ⟨o, d.name, none⟩ := by
  cases s with
  | relation r =>
    simp only [ofStatement, ofRelation] at he ⊢
    cases hd : schema.relationType? r.name with
    | none =>
      rw [hd] at he
      cases he
    | some d => exact Or.inl ⟨r, d, rfl, hd, rfl⟩
  | attr a =>
    simp only [ofStatement, ofAttribute] at he ⊢
    cases hd : schema.attributeType? a.name with
    | none =>
      rw [hd] at he
      cases he
    | some d => exact Or.inr ⟨a, d, rfl, hd, rfl⟩

theorem spells_record (hk : schema.Keyed) {n : Nat} {s : Statement}
    (he : (ofStatement schema g o s n).errors.isEmpty = true) (g₁ : Graph) :
    schema.Spells ((ofStatement schema g o s n).edge.record g₁).subject := by
  obtain ⟨r, d, -, hd, hsubject⟩ | ⟨a, d, -, hd, hsubject⟩ := subject_record he g₁
  · rw [hsubject]
    refine ⟨.relationType d, ?_, rfl⟩
    exact (schema.find?_relationType d.name).trans (congrArg (Option.map _) (hk.relationType?_name hd))
  · rw [hsubject]
    refine ⟨.attributeType d, ?_, rfl⟩
    exact (schema.find?_attributeType d.name).trans (congrArg (Option.map _) (hk.attributeType?_name hd))

theorem Framed.folded_recordFor (h : g.Framed) (hk : schema.Keyed)
    (he : (ofStatement schema g o line.2 line.1).errors.isEmpty = true) (hw : line.2.Restates g o w) :
    (recordFor schema o line g).subject.folded = w.subject.folded := by
  unfold recordFor
  obtain ⟨s, d, hs, hd, hsubject⟩ | ⟨s, d, hs, hd, hsubject⟩ := subject_record he g
  · rw [hsubject]
    rw [hs] at hw
    cases w with
    | attr a => exact hw.elim
    | relation r =>
      obtain ⟨rfl, hname, htarget⟩ := hw
      rw [h.lookup_id] at htarget
      have hfold : fold d.name = fold r.name := (hk.fold_relationType? hd).trans hname.symm
      rw [h.resolveTarget_targetOf, resolve_known htarget]
      exact congrArg (EdgeSubject.mk _ · _) hfold
  · rw [hsubject]
    rw [hs] at hw
    cases w with
    | relation r => exact hw.elim
    | attr a =>
      obtain ⟨rfl, hname⟩ := hw
      have hfold : fold d.name = fold a.name := (hk.fold_attributeType? hd).trans hname.symm
      exact congrArg (EdgeSubject.mk _ · _) hfold

/-- A statement that fits the schema comes upon the edge that it restates. -/
theorem Composed.recordFor_eq (h : g.Composed p schema.Spells) (hf : g.Framed) (hk : schema.Keyed)
    (hw : g.record? e = some w) (he : (ofStatement schema g o line.2 line.1).errors.isEmpty = true)
    (hrestates : line.2.Restates g o w) : (recordFor schema o line g).ref = e := by
  obtain ⟨hid, -, hspells⟩ := h.edge e w hw
  have hsubject := (spells_record hk he g).eq_of_folded hspells (hf.folded_recordFor hk he hrestates)
  exact (GroundedEdge.isComposed_record _ g).trans ((congrArg EdgeSubject.ref hsubject).trans hid.symm)

/-- If the schema spells the name of an edge otherwise, stating that edge again makes a second one. -/
theorem Composed.not_onePerSubject (h : g.Composed p fun _ => True) (hf : g.Framed) (hk : schema.Keyed)
    (hw : g.record? e = some w) (hspelling : ¬schema.Spells w.subject)
    (hkey : g.Owns o k) (he : (ofStatement schema g o line.2 line.1).errors.isEmpty = true)
    (hrestates : line.2.Restates g o w) (label : String) :
    ¬(applyStatement schema label o k line g).2.OnePerSubject := by
  have hfolded := hf.folded_recordFor hk he hrestates
  obtain ⟨hid, -⟩ := h.edge e w hw
  have hne : e ≠ (recordFor schema o line g).ref := by
    rintro heq
    have href : (recordFor schema o line g).subject.ref = w.subject.ref :=
      ((GroundedEdge.isComposed_record _ g).symm.trans heq.symm).trans hid
    exact hspelling (EdgeSubject.eq_of_ref_of_folded href hfolded ▸ spells_record hk he g)
  obtain ⟨-, -, hrecords⟩ := hf.roomFor_spec schema (o := o) line
  rw [hf.applyStatement_eq schema line hkey, if_pos he]
  intro hone
  refine hne (hone e _ w (recordFor schema o line g) ?_ ?_ hfolded.symm)
  · rw [record?_upserted, if_neg hne, hrecords, hw]
  · rw [record?_upserted, if_pos rfl]

end Graph

/-- What is said comes in documents, and otherwise only the schema is changed. -/
def Operation.Stating : Operation → Prop
  | .apply _ => True
  | .applyDocument _ => True
  | .changeSchema _ => True
  | _ => False

theorem Operation.Stating.checked {op : Operation} (h : op.Stating) : op.Checked := by
  cases op with
  | change c => exact h.elim
  | changeGuarded guard c => exact h.elim
  | _ => trivial

/-- An update that goes through gives the type of the edge another spelling than the edge has. -/
def Operation.Respells (schema : Schema) (w : EdgeRecord) (op : Operation) : Prop :=
  ∃ d schema', op = .changeSchema (.update d) ∧ schema.update d = .ok schema' ∧ w.typeKind = d.tidied.kind ∧
    fold w.name = fold d.tidied.name ∧ w.name ≠ d.tidied.name

namespace Session

open Morphology.Graph

variable {settings : Settings} {s₀ s : Session} {n : Nat} {op : Operation}

/-- The operation gives another spelling to a type that edges have. -/
def Respells (s : Session) (op : Operation) : Prop := ∃ e w, s.graph.record? e = some w ∧ op.Respells s.schema w

structure Spelled (n : Nat) (s : Session) : Prop where
  typed : s.Typed fun _ _ => True
  /-- All nodes are made in one namespace, so that no ends of edges clash. -/
  composed : s.graph.Composed (·.colons = n) s.schema.Spells
  filed : s.graph.Filed

theorem spelled_of_create (h : create settings = .ok s) : s.Spelled (settings.space.stem.toList.count ':') := by
  have htyped : s.Typed fun _ _ => True := typed_of_create h
  obtain ⟨tier, -, rfl⟩ := create_eq_ok h
  exact ⟨htyped, composed_empty fun _ ho => ho.colons, filed_empty _⟩

namespace Spelled

variable (h : s.Spelled n)

include h

theorem documents : OutlastsDocuments s.schema fun g =>
    (g.Framed ∧ g.Composed (·.colons = n) s.schema.Spells) ∧ g.Filed :=
  outlastsDocuments_filed n fun he => spells_record h.typed.keyed he

theorem leaves_create (d : Definition) : Leaves (Action.changeSchema (.create d)) s fun s' =>
    s'.graph.Composed (·.colons = n) s'.schema.Spells ∧ s'.graph.Filed := by
  refine Action.leaves_create ⟨h.composed, h.filed⟩ fun hfree => ⟨?_, h.filed⟩
  refine h.composed.imp fun e w _ ⟨d₀, hd₀, hname⟩ => ⟨d₀, ?_, hname⟩
  rw [Schema.find?_put (Schema.shared_of_find?_none hfree), if_neg, hd₀]
  rintro ⟨hkind, hfold⟩
  rw [hkind, Schema.find?_congr hfold, hfree] at hd₀
  cases hd₀

theorem leaves_update {d : Definition} (hr : ¬s.Respells (.changeSchema (.update d))) :
    Leaves (Action.changeSchema (.update d)) s fun s' =>
      s'.graph.Composed (·.colons = n) s'.schema.Spells ∧ s'.graph.Filed := by
  refine Action.leaves_update ⟨h.composed, h.filed⟩ fun hupdated hshared => ⟨?_, h.filed⟩
  refine h.composed.imp fun e w hw ⟨d₀, hd₀, hname⟩ => ?_
  by_cases hkey : w.subject.typeKind = d.tidied.kind ∧ fold w.subject.name = fold d.tidied.name
  · refine ⟨d.tidied, by rw [Schema.find?_put hshared, if_pos hkey], ?_⟩
    by_contra hne
    rw [EdgeSubject.typeKind_subject, EdgeSubject.name_subject] at hkey
    rw [EdgeSubject.name_subject] at hne
    exact hr ⟨e, w, hw, d, _, rfl, hupdated, hkey.1, hkey.2, Ne.symm hne⟩
  · exact ⟨d₀, by rw [Schema.find?_put hshared, if_neg hkey, hd₀], hname⟩

/-- What names stand for after the deletion of a type they stood for before. -/
theorem ensures_delete (kind : TypeKind) (name : String) :
    Ensures (Action.deleteType kind name) s fun _ s' => s'.Typed (fun _ _ => True) → s'.Spelled n := by
  have hI := (outlastsChanges_composed (·.colons = n) s.schema.Spells).toOutlasts.and outlastsChanges_filed.toOutlasts
  have hkept := (hI.leaves_deleteEdges ⟨h.composed, h.filed⟩ (s.graph.edgesOfType kind name)).ensures
  refine (Action.ensures_deleteType kind name fun _ _ => hkept).mono ?_
  rintro _ _ ⟨g', rfl, hc, hf⟩ htyped
  refine ⟨htyped, hc.imp fun e w hw ⟨d₀, hd₀, hname⟩ => ⟨d₀, ?_, hname⟩, hf⟩
  obtain ⟨d', hd', -⟩ := htyped.typed.edge hw
  rw [EdgeSubject.typeKind_subject, EdgeSubject.name_subject] at hd₀ ⊢
  rw [Schema.find?_of_erase hd'] at hd₀
  cases hd₀
  exact hd'

theorem after (hop : op.Stating) (hr : ¬s.Respells op) : (s.after op).Spelled n := by
  have hwhole (hdeletes : op.DeletesType) : s.Whole op := whole_of_deletesType (Or.inr h.filed) hdeletes
  have htyped : (s.after op).Typed fun _ _ => True :=
    h.typed.after (fun _ _ _ => trivial) hop.checked hwhole (refits_trivial s op)
  have hstart : (s.graph.Framed ∧ s.graph.Composed (·.colons = n) s.schema.Spells) ∧ s.graph.Filed :=
    ⟨⟨h.typed.framed, h.composed⟩, h.filed⟩
  cases op with
  | apply text =>
    obtain ⟨⟨-, hc⟩, hf⟩ := h.documents.applyDocument hstart (Document.parse text)
    exact ⟨htyped, hc, hf⟩
  | applyDocument document =>
    obtain ⟨⟨-, hc⟩, hf⟩ := h.documents.applyDocument hstart document
    exact ⟨htyped, hc, hf⟩
  | changeSchema c =>
    cases c with
    | create d =>
      have hcreated : Leaves (Operation.changeSchema (.create d)).perform s _ := (h.leaves_create d).map
      obtain ⟨hc, hf⟩ := after_of_leaves hcreated
      exact ⟨htyped, hc, hf⟩
    | update d =>
      have hupdated : Leaves (Operation.changeSchema (.update d)).perform s _ := (h.leaves_update hr).map
      obtain ⟨hc, hf⟩ := after_of_leaves hupdated
      exact ⟨htyped, hc, hf⟩
    | delete kind name =>
      have hdeleted : Ensures (Operation.changeSchema (.delete kind name)).perform s fun _ s' =>
          s'.Typed (fun _ _ => True) → s'.Spelled n :=
        Ensures.map (Ensures.map (h.ensures_delete kind name) fun _ _ h' => h') fun _ _ h' => h'
      exact after_of_leaves (hdeleted.leaves fun e s' he _ => (hwhole trivial e s' he).symm ▸ h) htyped
  | _ => exact hop.elim

theorem of_run {s' : Session} (hrun : RunWhere (fun s op => op.Stating ∧ ¬s.Respells op) s s') : s'.Spelled n :=
  hrun.invariant h fun _ _ h' ⟨hop, hr⟩ => h'.after hop hr

end Spelled

theorem after_update {d : Definition} {schema : Schema} (h : s.schema.update d = .ok schema) :
    s.after (.changeSchema (.update d)) = { s with schema := schema } := by
  have hstep : s.schema.change (.update d) = .ok (none, schema) := map_eq_ok.mpr ⟨schema, h, rfl⟩
  have hperform : (Operation.changeSchema (.update d)).perform s =
      .ok (.definition none) { s with schema := schema } := by
    show (Answer.definition <$> Action.editSchema fun schema => schema.change (.update d)) s = _
    simp only [Functor.map, EStateM.map, Action.editSchema, hstep]
  rw [after, hperform]

/-- No two edges are on one subject, and stating an edge again comes upon the one that is there, as long as no update
gives another spelling to a type that edges have; and after the first one that does, stating such an edge again makes a
second one. -/
theorem onePerSubject_of_run (hcreate : create settings = .ok s₀)
    (hrun : RunWhere (fun s op => op.Stating ∧ ¬s.Respells op) s₀ s) :
    s.graph.OnePerSubject ∧
    (∀ (label : String) (o : NodeId) (k : MorphId) (line : Nat × Statement) (e : EdgeRef) (w : EdgeRecord),
      s.graph.Owns o k → s.graph.record? e = some w → line.2.Restates s.graph o w →
      (Grounding.ofStatement s.schema s.graph o line.2 line.1).errors.isEmpty = true →
      (applyStatement s.schema label o k line s.graph).1.applied = [⟨label, line.1, e, false⟩]) ∧
    ∀ (op : Operation) (label : String) (o : NodeId) (k : MorphId) (line : Nat × Statement) (e : EdgeRef)
      (w : EdgeRecord), s.graph.record? e = some w → op.Respells s.schema w → (s.after op).graph.Owns o k →
      line.2.Restates (s.after op).graph o w →
      (Grounding.ofStatement (s.after op).schema (s.after op).graph o line.2 line.1).errors.isEmpty = true →
      ¬(applyStatement (s.after op).schema label o k line (s.after op).graph).2.OnePerSubject := by
  have h := (spelled_of_create hcreate).of_run hrun
  refine ⟨h.composed.onePerSubject, fun label o k line e w hk hw hrestates he => ?_,
    fun op label o k line e w hw hr hk hrestates he => ?_⟩
  · have hlands := h.composed.recordFor_eq h.typed.framed h.typed.keyed hw he hrestates
    have hthere : s.graph.hasEdge e = true := by rw [hasEdge_eq, hw, Option.isSome_some]
    rw [h.typed.framed.applyStatement_eq s.schema line hk, if_pos he, hlands, hthere, Bool.not_true]
  · obtain ⟨d, schema, rfl, hupdated, hkind, hfold, hne⟩ := hr
    rw [after_update hupdated] at hk hrestates he ⊢
    obtain ⟨hshared, rfl⟩ := Schema.update_eq_ok hupdated
    refine Composed.not_onePerSubject (h.composed.imp fun _ _ _ _ => trivial) h.typed.framed (h.typed.keyed.put _) hw ?_
      hk he hrestates label
    rintro ⟨d', hd', hname⟩
    rw [EdgeSubject.typeKind_subject, EdgeSubject.name_subject, Schema.find?_put hshared, if_pos ⟨hkind, hfold⟩] at hd'
    cases hd'
    exact hne (hname.trans (EdgeSubject.name_subject w)).symm

def feeding : List Operation :=
  [.changeSchema (.create (.relationType { name := "eats" })), .apply "# Crow\n:::cnl\n<eats> worm\n"]

/-- A session in which it was said what the crow eats. -/
def fed : Session := feeding.foldl Session.after (fresh {} ⟨{}, {}⟩)

def worm : Relation := Relation.new ⟨"local/default/crow"⟩ "eats" ⟨"local/default/worm"⟩ {}

/-- The same in another spelling. -/
def feedingAgain : Nat × Statement := (1, .relation { name := "EATS", targetName := "Worm" })

def capitalized : Session := fed.after (.changeSchema (.update (.relationType { name := "Eats" })))

/-- What the crow eats may be told again; once eating has another spelling, the relation is made a second time. -/
theorem onePerSubject_fed : create {} = .ok (fresh {} ⟨{}, {}⟩) ∧ fed.graph.OnePerSubject ∧
    (applyStatement fed.schema "Crow" ⟨"local/default/crow"⟩ ⟨"local/default/crow::morph::0"⟩ feedingAgain
      fed.graph).1.applied = [⟨"Crow", 1, .relation worm.id, false⟩] ∧
    ¬(applyStatement capitalized.schema "Crow" ⟨"local/default/crow"⟩ ⟨"local/default/crow::morph::0"⟩ feedingAgain
      capitalized.graph).2.OnePerSubject := by
  have hcreate : create {} = .ok (fresh {} ⟨{}, {}⟩) := rfl
  have hfeeding : ∀ op ∈ feeding, ∀ s : Session, op.Stating ∧ ¬s.Respells op := by
    simp [feeding, Operation.Stating, Respells, Operation.Respells]
  have hrun : RunWhere (fun s op => op.Stating ∧ ¬s.Respells op) (fresh {} ⟨{}, {}⟩) fed :=
    run_foldl hfeeding _
  obtain ⟨hone, hlands, hdoubles⟩ := onePerSubject_of_run hcreate hrun
  obtain ⟨hthere, hbasic, hworm, hok⟩ : fed.graph.relations.get? worm.id = some worm ∧
      (fed.graph.morphs.get? ⟨"local/default/crow::morph::0"⟩).map (·.owner) = some ⟨"local/default/crow"⟩ ∧
      (fed.graph.lookup "Worm" none).map (·.id) = some worm.target ∧
      (fed.schema.update (.relationType { name := "Eats" })).isOk = true := by
    decide +kernel
  have hw : fed.graph.record? (.relation worm.id) = some (.relation worm) :=
    congrArg (Option.map EdgeRecord.relation) hthere
  have howns : fed.graph.Owns ⟨"local/default/crow"⟩ ⟨"local/default/crow::morph::0"⟩ :=
    Option.map_eq_some_iff.mp hbasic
  have hrestates : feedingAgain.2.Restates fed.graph ⟨"local/default/crow"⟩ (.relation worm) :=
    ⟨rfl, by decide +kernel, hworm⟩
  obtain ⟨schema, hupdated⟩ : ∃ schema, fed.schema.update (.relationType { name := "Eats" }) = .ok schema := by
    cases hschema : fed.schema.update (.relationType { name := "Eats" }) with
    | ok schema => exact ⟨schema, rfl⟩
    | error e =>
      rw [hschema] at hok
      cases hok
  have hrespells : Operation.Respells fed.schema (.relation worm)
      (.changeSchema (.update (.relationType { name := "Eats" }))) :=
    ⟨_, schema, rfl, hupdated, rfl, by decide +kernel, by decide +kernel⟩
  have hgraph : capitalized.graph = fed.graph := by rw [capitalized, after_update hupdated]
  have howns' : capitalized.graph.Owns ⟨"local/default/crow"⟩ ⟨"local/default/crow::morph::0"⟩ := by
    rw [hgraph]
    exact howns
  have hrestates' : feedingAgain.2.Restates capitalized.graph ⟨"local/default/crow"⟩ (.relation worm) := by
    rw [hgraph]
    exact hrestates
  refine ⟨hcreate, hone, hlands _ _ _ _ _ _ howns hw hrestates ?_,
    hdoubles _ _ _ _ _ _ _ hw hrespells howns' hrestates' ?_⟩
  · decide +kernel
  · decide +kernel

end Session

end Morphology
