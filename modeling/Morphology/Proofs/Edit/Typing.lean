import Morphology.Proofs.Edit.Frame
import Morphology.Proofs.Edit.Stamps
import Morphology.Proofs.Schema

/-! Graphs that fit a schema. The names of their edges and the types of their nodes stand for definitions of it, and
the indexes list every edge under its name. Edits that write nothing of their own keep this, whatever the ids are made
of, and so do documents that are held against the schema. -/

namespace Morphology

open Text

/-- The value is one of the type, permitted by it, and kept beside its text. -/
def AttributeType.Accepts (d : AttributeType) (a : Attribute) : Prop :=
  ∃ v, d.dataType.coerce a.value = some v ∧ d.allows a.value = true ∧ a.typed = some v

instance (d : AttributeType) (a : Attribute) : Decidable (d.Accepts a) :=
  decidable_of_iff ((d.dataType.coerce a.value).isSome ∧ d.allows a.value = true ∧ a.typed = d.dataType.coerce a.value)
    ⟨fun ⟨hsome, hallowed, htyped⟩ => by
      obtain ⟨v, hv⟩ := Option.isSome_iff_exists.mp hsome
      exact ⟨v, hv, hallowed, htyped.trans hv⟩,
    fun ⟨v, hv, hallowed, htyped⟩ => ⟨by rw [hv, Option.isSome_some], hallowed, htyped.trans hv.symm⟩⟩

namespace EdgeRecord

def typeKind : EdgeRecord → TypeKind
  | relation _ => .relationType
  | attr _ => .attributeType

def name : EdgeRecord → String
  | relation r => r.name
  | attr a => a.name

end EdgeRecord

section

variable (fits : AttributeType → Attribute → Prop)

/-- An attribute is as `fits` demands of its type. -/
def Definition.Admits : Definition → EdgeRecord → Prop
  | .attributeType d, .attr a => fits d a
  | _, _ => True

def Schema.Resolves (schema : Schema) (w : EdgeRecord) : Prop :=
  ∃ d, schema.find? w.typeKind w.name = some d ∧ d.Admits fits w

structure Graph.Typed (schema : Schema) (g : Graph) : Prop where
  listed : ∀ {e w}, g.record? e = some w → w.ref = e ∧ g.Indexes w
  edge : ∀ {e w}, g.record? e = some w → schema.Resolves fits w
  node : ∀ {o t}, Grounding.nodeTypeOf g o = some t → ∃ d, schema.find? .nodeType t = some d

end

namespace Schema

variable {fits : AttributeType → Attribute → Prop} {schema : Schema}

theorem resolves_relation {r : Relation} :
    schema.Resolves fits (.relation r) ↔ ∃ d, schema.relationType? r.name = some d := by
  simp only [Resolves, EdgeRecord.typeKind, EdgeRecord.name, find?_relationType, Option.map_eq_some_iff]
  constructor
  · rintro ⟨_, ⟨d, hd, rfl⟩, -⟩
    exact ⟨d, hd⟩
  · rintro ⟨d, hd⟩
    exact ⟨_, ⟨d, hd, rfl⟩, trivial⟩

theorem resolves_attr {a : Attribute} :
    schema.Resolves fits (.attr a) ↔ ∃ d, schema.attributeType? a.name = some d ∧ fits d a := by
  simp only [Resolves, EdgeRecord.typeKind, EdgeRecord.name, find?_attributeType, Option.map_eq_some_iff]
  constructor
  · rintro ⟨_, ⟨d, hd, rfl⟩, hfit⟩
    exact ⟨d, hd, hfit⟩
  · rintro ⟨d, hd, hfit⟩
    exact ⟨_, ⟨d, hd, rfl⟩, hfit⟩

end Schema

namespace Graph

open Edit Grounding

variable {fits : AttributeType → Attribute → Prop} {schema : Schema} {g g' : Graph} {o : NodeId} {k : MorphId}
  {e : EdgeRef} {w : EdgeRecord}

theorem typed_empty (fits : AttributeType → Attribute → Prop) (schema : Schema) (space : Namespace) :
    (empty space).Typed fits schema where
  listed {e _} hw := by cases e <;> cases hw
  edge {e _} hw := by cases e <;> cases hw
  node ht := by cases ht

namespace Typed

variable (h : g.Typed fits schema)

include h

/-- The edges are as they were, and no node has a type that the schema does not have. -/
theorem reframe (hr : ∀ e, g'.record? e = g.record? e) (hx : ∀ w, g.Indexes w → g'.Indexes w)
    (hn : ∀ o t, nodeTypeOf g' o = some t → nodeTypeOf g o = some t ∨ ∃ d, schema.find? .nodeType t = some d) :
    g'.Typed fits schema where
  listed hw := (h.listed (hr _ ▸ hw)).imp_right (hx _)
  edge hw := h.edge (hr _ ▸ hw)
  node ht := (hn _ _ ht).elim h.node id

theorem grown (hg : g.Grown g') (hr : ∀ e, g'.record? e = g.record? e) : g'.Typed fits schema :=
  h.reframe hr (fun _ => hg.indexes) fun o _ ht => Or.inl (hg.typed o ▸ ht)

/-- One edge is written down, in the indexes as well. -/
theorem write (hr : ∀ e, g'.record? e = if e = w.ref then some w else g.record? e)
    (hx : ∀ {v}, g.Indexes v → g'.Indexes v) (hn : g'.nodes = g.nodes) (hw : g'.Indexes w)
    (hd : schema.Resolves fits w) : g'.Typed fits schema where
  listed {e v} hv := by
    rw [hr] at hv
    split at hv
    · rename_i he
      cases hv
      exact ⟨he.symm, hw⟩
    · exact (h.listed hv).imp_right hx
  edge {e v} hv := by
    rw [hr] at hv
    split at hv
    · cases hv
      exact hd
    · exact h.edge hv
  node {o t} ht := by
    rw [nodeTypeOf, hn] at ht
    exact h.node ht

theorem withRecord (hd : schema.Resolves fits w) : (g.withRecord w).Typed fits schema :=
  h.write (fun _ => record?_withRecord) (grown_withRecord g w).indexes (withRecord_nodes g w) indexes_withRecord hd

/-- Another relation with the same ends and the same name. -/
theorem insertRelation {id : RelationId} {r : Relation} (hr : g.relations.get? id = some r)
    (modifiers : RelationModifiers) :
    Typed fits schema { g with relations := g.relations.insert id { r with modifiers := modifiers } } := by
  have hrecord : g.record? (.relation id) = some (.relation r) := by rw [record?, hr, Option.map_some]
  obtain ⟨⟨⟩, hx⟩ := h.listed hrecord
  have hindexes {v : EdgeRecord} {r' : Relation} (hv : g.Indexes v) :
      Indexes { g with relations := g.relations.insert r.id r' } v := by cases v <;> exact hv
  refine h.write (w := .relation { r with modifiers := modifiers })
    (record?_insertRelation g r.id { r with modifiers := modifiers }) hindexes rfl (hindexes hx) ?_
  obtain ⟨d, hd⟩ := Schema.resolves_relation.mp (h.edge hrecord)
  exact Schema.resolves_relation.mpr ⟨d, hd⟩

/-- Another value of the same attribute. -/
theorem insertAttribute {id : AttributeId} {a a' : Attribute} (ha : g.attributes.get? id = some a) (hid : a'.id = a.id)
    (hname : a'.name = a.name) (hfit : ∀ d, schema.attributeType? a.name = some d → fits d a') :
    Typed fits schema { g with attributes := g.attributes.insert id a' } := by
  have hrecord : g.record? (.attr id) = some (.attr a) := by rw [record?, ha, Option.map_some]
  obtain ⟨⟨⟩, hx⟩ := h.listed hrecord
  have hindexes {v : EdgeRecord} (hv : g.Indexes v) :
      Indexes { g with attributes := g.attributes.insert a'.id a' } v := by cases v <;> exact hv
  rw [← hid]
  refine h.write (w := .attr a') (record?_insertAttribute g a'.id a') hindexes rfl ?_ ?_
  · refine hindexes ?_
    rw [Indexes, hid, hname]
    exact hx
  · obtain ⟨d, hd, -⟩ := Schema.resolves_attr.mp (h.edge hrecord)
    exact Schema.resolves_attr.mpr ⟨d, by rw [hname, hd], hfit d hd⟩

theorem modifyNode {f : Node → Node} (hf : ∀ n t, g.nodes.get? o = some n → (f n).nodeType = some t →
    n.nodeType = some t ∨ ∃ d, schema.find? .nodeType t = some d) : (g.modifyNode o f).Typed fits schema := by
  refine h.reframe (fun e => by cases e <;> rfl) (fun w => by cases w <;> exact id) fun p t ht => ?_
  rw [nodeTypeOf, nodes_modifyNode] at ht
  split at ht
  · rename_i hp
    obtain ⟨n', hn', ht⟩ := Option.bind_eq_some_iff.mp ht
    obtain ⟨n, hn, rfl⟩ := Option.map_eq_some_iff.mp hn'
    refine (hf n t (hp ▸ hn) ht).imp_left fun ht => ?_
    rw [nodeTypeOf, hn]
    exact ht
  · exact Or.inl ht

theorem withMorphs (ms : Table MorphId Morph) (x : Index EdgeRef MorphId) :
    Typed fits schema { g with morphs := ms, referrers := x } :=
  h.reframe (fun e => by cases e <;> rfl) (fun w => by cases w <;> exact id) fun _ _ => Or.inl

theorem withTransitions (ts : Table TransitionId Transition) : Typed fits schema { g with transitions := ts } :=
  h.reframe (fun e => by cases e <;> rfl) (fun w => by cases w <;> exact id) fun _ _ => Or.inl

theorem withoutMorph (k : MorphId) (m : Morph) : (g.withoutMorph k m).Typed fits schema := by
  refine h.reframe (fun e => by cases e <;> rfl) (fun w => by cases w <;> exact id) fun o t ht => Or.inl ?_
  rw [nodeTypeOf, nodes_withoutMorph] at ht
  split at ht
  · obtain ⟨n', hn', ht⟩ := Option.bind_eq_some_iff.mp ht
    obtain ⟨n, hn, rfl⟩ := Option.map_eq_some_iff.mp hn'
    rw [nodeTypeOf, hn]
    exact ht
  · exact ht

theorem withoutNode (o : NodeId) (n : Node) : (g.withoutNode o n).Typed fits schema := by
  refine h.reframe (fun e => by cases e <;> rfl) (fun w => by cases w <;> exact id) fun p t ht => Or.inl ?_
  rw [nodeTypeOf, nodes_withoutNode] at ht
  split at ht
  · cases ht
  · exact ht

theorem eraseEdgeRecord (e : EdgeRef) : (g.eraseEdgeRecord e).Typed fits schema := by
  refine ⟨fun {e' w} hw => ?_, fun hw => h.edge (record_of_eraseEdgeRecord hw).2, fun ht => ?_⟩
  · obtain ⟨hne, hw⟩ := record_of_eraseEdgeRecord hw
    obtain ⟨rfl, hx⟩ := h.listed hw
    exact ⟨rfl, indexes_eraseEdgeRecord hne hx⟩
  · rw [nodeTypeOf, eraseEdgeRecord_nodes, ← nodeTypeOf] at ht
    exact h.node ht

theorem linking (k : MorphId) (e : EdgeRef) : (g.linking k e).Typed fits schema :=
  h.grown (grown_linking g k e) fun _ => record?_linking

theorem createMorph (hf : g.Framed) {n : Node} (hn : g.nodes.get? o = some n) (name : Option String) :
    (g.withMorph g.names n.withMorph (MorphId.ofNode n.id n.nextMorph) name).Typed fits schema :=
  h.grown (hf.grown_createMorph hn name) fun _ => record?_withMorph

theorem resolve (hf : g.Framed) (name : String) (qualifier : Option String) :
    (g.resolve name qualifier).2.Typed fits schema := by
  obtain ⟨hg, hr, -⟩ := hf.resolve_spec name qualifier
  exact h.grown hg hr

theorem importNode (hf : g.Framed) (id : NodeId) (name : String) (qualifier : Option String) :
    (g.importNode id name qualifier).2.Typed fits schema :=
  importNode_induction h (fun _ _ hfree => h.grown (hf.grown_withNode hfree _ _) fun _ => record?_withMorph) name
    qualifier

end Typed

theorem outlastsChanges_typed (fits : AttributeType → Attribute → Prop) (schema : Schema) :
    OutlastsChanges (Typed fits schema) where
  unlink h hs := by
    obtain ⟨m, -, rfl⟩ := unlink_eq_ok hs
    exact h.withMorphs _ _
  removeEdge {g _ e _} h hs := by
    obtain ⟨-, rfl⟩ := removeEdge_eq_ok hs
    exact (h.eraseEdgeRecord e).withMorphs _ _
  link h hs := by
    obtain ⟨m, -, -, rfl⟩ := link_eq_ok hs
    exact h.linking _ _
  bump o h := h.modifyNode fun n t _ ht => Or.inl ht
  createMorph _ hf hn h := h.createMorph hf hn _
  withoutMorph _ _ _ _ h := h.withoutMorph _ _
  withoutNode _ _ _ h := h.withoutNode _ _
  choose o k h := h.modifyNode fun n t _ ht => Or.inl ht
  modify modifiers hr h := h.insertRelation hr modifiers

theorem Typed.leaves_updateNode (h : g.Typed fits schema) (o : NodeId) {update : NodeUpdate}
    (hu : ∀ t, update.nodeType = some (some t) → ∃ d, schema.find? .nodeType t = some d) :
    Leaves (updateNode o update) g (Typed fits schema) := by
  refine .demand_bind h fun _ _ => .modify (h.modifyNode fun n t _ ht => ?_)
  cases hn : update.nodeType with
  | none =>
    have hkept : (update.apply n).bump.nodeType = n.nodeType := by rw [Node.bump, NodeUpdate.apply, hn]; rfl
    exact Or.inl (hkept ▸ ht)
  | some new =>
    have hnew : (update.apply n).bump.nodeType = new := by rw [Node.bump, NodeUpdate.apply, hn]; rfl
    exact Or.inr (hu t (by rw [hn, ← hnew, ht]))

theorem Typed.leaves_updateAttribute (h : g.Typed fits schema) {id : AttributeId} {value : String}
    {typed : Option Value} {modifiers : AttributeModifiers}
    (hfit : ∀ a d, g.attributes.get? id = some a → schema.attributeType? a.name = some d →
      fits d { a with value := value, typed := typed, modifiers := modifiers }) :
    Leaves (updateAttribute id value typed modifiers) g (Typed fits schema) :=
  (outlastsChanges_typed fits schema).leaves_updateAttribute h fun a ha =>
    h.insertAttribute ha rfl rfl fun d hd => hfit a d ha hd

end Graph

/-! ## Documents -/

namespace Grounding

variable {fits : AttributeType → Attribute → Prop} {schema : Schema}

theorem accepts_of_checkValue {d : AttributeType} {value : String} {n : Nat} {typed : Option Value}
    (h : checkValue d value n = (typed, [])) {a : Attribute} (hvalue : a.value = value) (htyped : a.typed = typed) :
    d.Accepts a := by
  unfold checkValue at h
  split at h
  · cases h
  · rename_i v hv
    obtain ⟨rfl, hallowed⟩ := Prod.mk.inj h
    split at hallowed
    · exact ⟨v, hvalue ▸ hv, by rwa [hvalue], htyped⟩
    · cases hallowed

/-- Nothing is objected to an edge whose name and value fit the schema. -/
theorem resolves_record (hk : schema.Keyed) (hfits : ∀ d a, AttributeType.Accepts d a → fits d a) {g : Graph}
    {o : NodeId} {s : Statement} {n : Nat} (he : (ofStatement schema g o s n).errors.isEmpty = true) (g₁ : Graph) :
    schema.Resolves fits ((ofStatement schema g o s n).edge.record g₁) := by
  cases s with
  | relation s =>
    simp only [ofStatement, ofRelation] at he ⊢
    cases hd : schema.relationType? s.name with
    | none =>
      rw [hd] at he
      cases he
    | some d => exact Schema.resolves_relation.mpr ⟨d, hk.relationType?_name hd⟩
  | attr s =>
    simp only [ofStatement, ofAttribute] at he ⊢
    cases hd : schema.attributeType? s.name with
    | none =>
      rw [hd] at he
      cases he
    | some d =>
      rw [hd] at he
      have hchecked : checkValue d s.value n = ((checkValue d s.value n).1, []) :=
        Prod.ext rfl (List.isEmpty_iff.mp he)
      exact Schema.resolves_attr.mpr
        ⟨d, hk.attributeType?_name hd, hfits _ _ (accepts_of_checkValue hchecked rfl rfl)⟩

end Grounding

namespace Graph

open Edit

variable {fits : AttributeType → Attribute → Prop} {schema : Schema}

theorem Typed.leaves_writeEdge {g : Graph} (h : g.Typed fits schema) (hf : g.Framed) (k : MorphId)
    {edge : GroundedEdge} (hedge : ∀ g₁, schema.Resolves fits (edge.record g₁)) :
    Leaves (writeEdge k edge) g (Typed fits schema) :=
  (outlastsChanges_typed fits schema).leaves_writeEdge h (h.resolve hf) k fun _ h₁ _ => h₁.withRecord (hedge g)

theorem outlastsDocuments_typed (hk : schema.Keyed) (hfits : ∀ d a, AttributeType.Accepts d a → fits d a) :
    OutlastsDocuments schema fun g => g.Framed ∧ g.Typed fits schema where
  resolve name qualifier h := ⟨h.1.resolve name qualifier, h.2.resolve h.1 name qualifier⟩
  addMorph o name h :=
    ((outlastsDocuments_framed schema).addMorph o name h.1).and
      ((outlastsChanges_typed fits schema).leaves_addMorph h.1 h.2 o name none)
  writeEdge k _ _ he h :=
    (h.1.leaves_writeEdge k _).and (h.2.leaves_writeEdge h.1 k (Grounding.resolves_record hk hfits he))

/-! ## Definitions that come and go -/

section Definitions

variable {g : Graph} {kind : TypeKind} {name : String} {d : Definition}

/-- A definition that takes a free name, or the place of one of its kind, has to admit the edges of that name. -/
theorem Typed.put (h : g.Typed fits schema) (hshared : schema.shared.contains d.kind d.name = false)
    (hadmits : ∀ e w, g.record? e = some w → w.typeKind = d.kind → fold w.name = fold d.name → d.Admits fits w) :
    g.Typed fits (schema.put d) where
  listed := h.listed
  edge {e w} hw := by
    obtain ⟨d₀, hd₀, hadmitted⟩ := h.edge hw
    by_cases hkey : w.typeKind = d.kind ∧ fold w.name = fold d.name
    · exact ⟨d, by rw [Schema.find?_put hshared, if_pos hkey], hadmits e w hw hkey.1 hkey.2⟩
    · exact ⟨d₀, by rw [Schema.find?_put hshared, if_neg hkey, hd₀], hadmitted⟩
  node ht := by
    rw [Schema.find?_put hshared]
    split
    · exact ⟨d, rfl⟩
    · exact h.node ht

theorem Typed.erase (h : g.Typed fits schema)
    (hedges : ∀ e w, g.record? e = some w → ¬(w.typeKind = kind ∧ fold w.name = fold name))
    (hnodes : ∀ o t, Grounding.nodeTypeOf g o = some t → ¬(.nodeType = kind ∧ fold t = fold name)) :
    g.Typed fits (schema.erase kind name) where
  listed := h.listed
  edge {e w} hw := by
    rw [Schema.Resolves, Schema.find?_erase (hedges e w hw)]
    exact h.edge hw
  node {o t} ht := by
    rw [Schema.find?_erase (hnodes o t ht)]
    exact h.node ht

end Definitions

/-- No edge and no node type is there that was not there before. -/
structure Within (g₀ g : Graph) : Prop where
  record : ∀ {e w}, g.record? e = some w → g₀.record? e = some w
  typed : ∀ {o t}, Grounding.nodeTypeOf g o = some t → Grounding.nodeTypeOf g₀ o = some t

theorem Within.refl (g : Graph) : Within g g := ⟨id, id⟩

theorem Within.trans {g₀ g g' : Graph} (h : Within g₀ g) (h' : Within g g') : Within g₀ g' :=
  ⟨fun hw => h.record (h'.record hw), fun ht => h.typed (h'.typed ht)⟩

theorem Within.record?_none {g₀ g : Graph} (h : Within g₀ g) {e : EdgeRef} (he : g₀.record? e = none) :
    g.record? e = none := by
  refine Option.eq_none_iff_forall_ne_some.mpr fun w hw => ?_
  rw [h.record hw] at he
  cases he

theorem within_removeEdge {g g' : Graph} {e : EdgeRef} {losers : List MorphId}
    (hs : g.removeEdge e = .ok (losers, g')) : Within g g' ∧ g'.record? e = none := by
  refine ⟨⟨fun hw => (record_of_removeEdge hs hw).2, fun {o t} ht => ?_⟩, ?_⟩
  · rwa [Grounding.nodeTypeOf, removeEdge_nodes hs, ← Grounding.nodeTypeOf] at ht
  · rw [record?_removeEdge hs, record?_eraseEdgeRecord, if_pos rfl]

theorem outlasts_within (g₀ : Graph) : Outlasts (Within g₀) where
  unlink {g _ _ _ _} h hs := by
    obtain ⟨m, -, rfl⟩ := unlink_eq_ok hs
    exact h.trans ⟨fun {e _} hw => by cases e <;> exact hw, id⟩
  removeEdge h hs := h.trans (within_removeEdge hs).1
  link {g _ k e _} h hs := by
    obtain ⟨m, -, -, rfl⟩ := link_eq_ok hs
    exact h.trans ⟨fun hw => record?_linking ▸ hw, fun {o _} ht => (grown_linking g k e).typed o ▸ ht⟩
  bump {g} o h :=
    h.trans ⟨fun {e _} hw => by cases e <;> exact hw, fun {p _} ht => (grown_bump g o).typed p ▸ ht⟩

theorem within_deleteEdges (g : Graph) (es : List EdgeRef) :
    Ensures (deleteEdges es) g fun _ g' => Within g g' ∧ ∀ e ∈ es, g'.record? e = none := by
  induction es generalizing g with
  | nil => exact .pure ⟨.refl g, nofun⟩
  | cons e es ih =>
    have hdeleted : Ensures (deleteEdge e) g fun _ g₁ => Within g g₁ ∧ g₁.record? e = none := by
      refine .demand_bind fun _ _ => ?_
      have hremoved : Ensures (change (·.removeEdge e)) g fun _ g₁ => Within g g₁ ∧ g₁.record? e = none :=
        .change fun _ _ hs => within_removeEdge hs
      refine hremoved.bind fun losers g₁ ⟨h₁, hgone⟩ => ?_
      have htouched := ((outlasts_within g₁).leaves_touchOwners (.refl g₁) losers).ensures
      exact htouched.bind fun _ g₂ h₂ => .pure ⟨h₁.trans h₂, h₂.record?_none hgone⟩
    refine hdeleted.bind fun _ g₁ ⟨h₁, hgone⟩ => (ih g₁).mono fun _ g₂ ⟨h₂, hrest⟩ => ⟨h₁.trans h₂, ?_⟩
    exact List.forall_mem_cons.mpr ⟨h₂.record?_none hgone, hrest⟩

end Graph

end Morphology
