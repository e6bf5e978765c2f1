import Morphology.Proofs.Graph.Extension

/-! What edges are about. The subject of an edge is its record without what is said of it, modifiers and value, and the
id of an edge is composed from its subject. Two subjects have one id only where they are the same or their ends
clash, and where ends clash there are names that make it so. Where none clash, an edge only ever takes the place of one
on the same subject, and is listed under the name of its type alone. -/

namespace Morphology

structure EdgeSubject where
  owner : NodeId
  name : String
  /-- Where a relation leads to. -/
  target : Option NodeId
  deriving DecidableEq

namespace EdgeSubject

def ref : EdgeSubject → EdgeRef
  | ⟨owner, name, some target⟩ => .relation (.compose owner name target)
  | ⟨owner, name, none⟩ => .attr (.compose owner name)

/-- The ends are others, but ids cannot tell them apart. -/
def Clashes (x y : EdgeSubject) : Prop :=
  (x.owner ≠ y.owner ∨ x.target ≠ y.target) ∧ (x.owner = y.owner ∨ x.owner.ClashesBefore y.owner) ∧
    (x.target = y.target ∨ ∃ b d, x.target = some b ∧ y.target = some d ∧ b.ClashesBehind d)

/-- All ends are as `p` has it. -/
def EndsAll (p : NodeId → Prop) (x : EdgeSubject) : Prop := p x.owner ∧ ∀ b, x.target = some b → p b

variable {x y : EdgeSubject} {n : Nat}

theorem eq_or_clashes (h : x.ref = y.ref) : x = y ∨ x.Clashes y := by
  obtain ⟨a, s, b⟩ := x
  obtain ⟨c, t, d⟩ := y
  by_cases hends : a = c ∧ b = d
  · obtain ⟨rfl, rfl⟩ := hends
    cases b with
    | none => exact Or.inl (by rw [(AttributeId.ends_of_compose (EdgeRef.attr.inj h)).2 rfl])
    | some b => exact Or.inl (by rw [(RelationId.ends_of_compose (EdgeRef.relation.inj h)).2.2 rfl rfl])
  · refine Or.inr ⟨not_and_or.mp hends, ?_⟩
    cases b <;> cases d
    · exact ⟨(AttributeId.ends_of_compose (EdgeRef.attr.inj h)).1, Or.inl rfl⟩
    · cases h
    · cases h
    · obtain ⟨howner, htarget, -⟩ := RelationId.ends_of_compose (EdgeRef.relation.inj h)
      exact ⟨howner, htarget.imp (congrArg some) fun hclash => ⟨_, _, rfl, rfl, hclash⟩⟩

theorem EndsAll.mono {p q : NodeId → Prop} (h : x.EndsAll p) (hpq : ∀ o, p o → q o) : x.EndsAll q :=
  ⟨hpq _ h.1, fun b hb => hpq b (h.2 b hb)⟩

/-- Ids with equally many colons do not clash. -/
theorem not_clashes (hx : x.EndsAll (·.colons = n)) (hy : y.EndsAll (·.colons = n)) : ¬x.Clashes y := by
  rintro ⟨hends, howner, htarget⟩
  have ho := howner.resolve_right (NodeId.not_clashesBefore (hx.1.trans hy.1.symm))
  rcases htarget with ht | ⟨b, d, hb, hd, hclash⟩
  · exact hends.elim (absurd ho) (absurd ht)
  · exact NodeId.not_clashesBehind ((hx.2 b hb).trans (hy.2 d hd).symm) hclash

theorem eq_of_ref (hx : x.EndsAll (·.colons = n)) (hy : y.EndsAll (·.colons = n)) (h : x.ref = y.ref) : x = y :=
  (eq_or_clashes h).resolve_right (not_clashes hx hy)

theorem Clashes.exists_names (h : x.Clashes y) :
    ∃ s t, ref { x with name := s } = ref { y with name := t } := by
  obtain ⟨a, _, b⟩ := x
  obtain ⟨c, _, d⟩ := y
  obtain ⟨-, howner, htarget⟩ := h
  replace htarget : b = d ∨ ∃ b' d', b = some b' ∧ d = some d' ∧ b'.ClashesBehind d' := htarget
  rcases htarget with rfl | ⟨b, d, rfl, rfl, hclash⟩
  · cases b with
    | none =>
      obtain ⟨s, t, hid⟩ := AttributeId.exists_compose howner
      exact ⟨s, t, congrArg EdgeRef.attr hid⟩
    | some b =>
      obtain ⟨s, t, hid⟩ := RelationId.exists_compose howner (Or.inl (rfl : b = b))
      exact ⟨s, t, congrArg EdgeRef.relation hid⟩
  · obtain ⟨s, t, hid⟩ := RelationId.exists_compose howner (Or.inr hclash)
    exact ⟨s, t, congrArg EdgeRef.relation hid⟩

end EdgeSubject

namespace EdgeRecord

def subject : EdgeRecord → EdgeSubject
  | relation r => ⟨r.source, r.name, some r.target⟩
  | attr a => ⟨a.owner, a.name, none⟩

def IsComposed (w : EdgeRecord) : Prop := w.ref = w.subject.ref

end EdgeRecord

namespace Graph

/-- The ends of an edge on this subject are there. -/
def HasEnds (g : Graph) (x : EdgeSubject) : Prop := x.EndsAll (g.nodes.contains · = true)

/-- Every edge has the id that is made of its subject. The ids of nodes, made and to be made, are as `p` has it, and the
subjects of edges as `q` has it. -/
structure Composed (p : NodeId → Prop) (q : EdgeSubject → Prop) (g : Graph) : Prop where
  node : ∀ o, g.nodes.contains o = true → p o
  rooted : ∀ o, o.IsRooted g.names.space → p o
  edge : ∀ e w, g.record? e = some w → e = w.subject.ref ∧ w.subject.EndsAll p ∧ q w.subject

variable {p : NodeId → Prop} {q q' : EdgeSubject → Prop} {g g' : Graph} {w : EdgeRecord}

theorem composed_empty {space : Namespace} (h : ∀ o, o.IsRooted space → p o) : (empty space).Composed p q where
  node o ho := by cases ho
  rooted := h
  edge e w hw := by cases e <;> cases hw

section Coherent

variable (h : g.Coherent) {x : EdgeSubject} {e : EdgeRef} {v : EdgeRecord}

include h

theorem Coherent.endsAll_colons (hx : g.HasEnds x) : x.EndsAll (·.colons = 0) :=
  hx.mono fun _ ho => (h.isPlain ho).colons

theorem Coherent.record (hw : g.record? e = some w) : w.ref = e ∧ w.IsComposed ∧ g.HasEnds w.subject := by
  cases e with
  | relation id =>
    obtain ⟨r, hr, rfl⟩ := Option.map_eq_some_iff.mp hw
    obtain ⟨hid, hcomposed, hsource, htarget⟩ := h.relation hr
    refine ⟨congrArg EdgeRef.relation hid, congrArg EdgeRef.relation hcomposed, hsource, ?_⟩
    rintro b ⟨⟩
    exact htarget
  | attr id =>
    obtain ⟨a, ha, rfl⟩ := Option.map_eq_some_iff.mp hw
    obtain ⟨hid, hcomposed, howner⟩ := h.attr ha
    exact ⟨congrArg EdgeRef.attr hid, congrArg EdgeRef.attr hcomposed, howner, nofun⟩

/-- An edge only ever takes the place of one on the same subject. -/
theorem Coherent.subject_eq (hv : g.record? w.ref = some v) (hc : w.IsComposed) (hends : g.HasEnds w.subject) :
    v.subject = w.subject := by
  obtain ⟨href, hvc, hvends⟩ := h.record hv
  exact EdgeSubject.eq_of_ref (h.endsAll_colons hvends) (h.endsAll_colons hends) (hvc.symm.trans (href.trans hc))

end Coherent

namespace Composed

variable (h : g.Composed p q)

include h

/-- No node and no edge is there that is about something new. -/
theorem reduce (hspace : g'.names.space = g.names.space)
    (hn : ∀ o, g'.nodes.contains o = true → g.nodes.contains o = true)
    (hr : ∀ e w, g'.record? e = some w → ∃ v, g.record? e = some v ∧ v.subject = w.subject) : g'.Composed p q where
  node o ho := h.node o (hn o ho)
  rooted o ho := h.rooted o (hspace ▸ ho)
  edge e w hw := by
    obtain ⟨v, hv, hsubject⟩ := hr e w hw
    exact hsubject ▸ h.edge e v hv

theorem reframe (hs : g.SameFrame g') (hr : ∀ e w, g'.record? e = some w → g.record? e = some w) : g'.Composed p q :=
  h.reduce (congrArg NameBook.space hs.names) (fun _ => hs.contains_iff.mp) fun e w hw => ⟨w, hr e w hw, rfl⟩

theorem imp (hq : ∀ e w, g.record? e = some w → q w.subject → q' w.subject) : g.Composed p q' :=
  { h with edge := fun e w hw => (h.edge e w hw).imp_right fun hends => hends.imp_right (hq e w hw) }

theorem withRecord (hc : w.IsComposed) (hends : g.HasEnds w.subject) (hw : q w.subject) :
    (g.withRecord w).Composed p q where
  node o ho := h.node o (withRecord_nodes g w ▸ ho)
  rooted o ho := h.rooted o (withRecord_names g w ▸ ho)
  edge e v hv := by
    rw [record?_withRecord] at hv
    split at hv
    · rename_i he
      cases hv
      exact ⟨he.trans hc, hends.mono h.node, hw⟩
    · exact h.edge e v hv

theorem insertRelation {id : RelationId} {r : Relation} (hr : g.relations.get? id = some r)
    (modifiers : RelationModifiers) :
    Composed p q { g with relations := g.relations.insert id { r with modifiers := modifiers } } := by
  refine h.reduce rfl (fun _ ho => ho) fun e w hw => ?_
  rw [record?_insertRelation] at hw
  split at hw
  · rename_i he
    cases hw
    exact ⟨.relation r, by rw [he, record?, hr, Option.map_some], rfl⟩
  · exact ⟨w, hw, rfl⟩

theorem insertAttribute {id : AttributeId} {a : Attribute} (ha : g.attributes.get? id = some a) (value : String)
    (typed : Option Value) (modifiers : AttributeModifiers) :
    Composed p q { g with
      attributes := g.attributes.insert id { a with value := value, typed := typed, modifiers := modifiers } } := by
  refine h.reduce rfl (fun _ ho => ho) fun e w hw => ?_
  rw [record?_insertAttribute] at hw
  split at hw
  · rename_i he
    cases hw
    exact ⟨.attr a, by rw [he, record?, ha, Option.map_some], rfl⟩
  · exact ⟨w, hw, rfl⟩

theorem withNode {id : NodeId} (hid : p id) (name : String) (qualifier : Option String) :
    (g.withNode id name qualifier).Composed p q where
  node o ho := by
    rcases contains_withMorph.mp ho with rfl | ho
    · exact hid
    · exact h.node o ho
  rooted o ho := by
    have hspace : (g.withNode id name qualifier).names.space = g.names.space := NameBook.space_register
    exact h.rooted o (hspace ▸ ho)
  edge e w hw := h.edge e w (record?_withMorph.symm.trans hw)

theorem resolve (name : String) (qualifier : Option String) : (g.resolve name qualifier).2.Composed p q :=
  resolve_induction h (fun _ _ => h.withNode (h.rooted _ (NameBook.mint_isRooted _ _ _)) _ _) name qualifier

theorem importNode {id : NodeId} (hid : p id) (name : String) (qualifier : Option String) :
    (g.importNode id name qualifier).2.Composed p q :=
  importNode_induction h (fun _ _ _ => h.withNode hid _ _) name qualifier

theorem subject_eq {n : Nat} (hp : ∀ o, p o → o.colons = n) {v : EdgeRecord} (hv : g.record? w.ref = some v)
    (hc : w.IsComposed) (hends : g.HasEnds w.subject) : v.subject = w.subject := by
  obtain ⟨href, hvends, -⟩ := h.edge _ v hv
  exact EdgeSubject.eq_of_ref (hvends.mono hp) (hends.mono fun o ho => hp o (h.node o ho)) (href.symm.trans hc)

end Composed

/-! ## Edges under the names of their types -/

/-- The indexes list under a name the edges that have it in some spelling, and nothing else. -/
structure Filed (g : Graph) : Prop where
  relationType : ∀ {t k}, k ∈ g.relationsByType.items t ↔ ∃ r, g.relations.get? k = some r ∧ Text.fold r.name = t
  attributeType : ∀ {t k}, k ∈ g.attributesByType.items t ↔ ∃ a, g.attributes.get? k = some a ∧ Text.fold a.name = t

theorem Coherent.filed (h : g.Coherent) : g.Filed := ⟨h.relationType, h.attributeType⟩

theorem filed_empty (space : Namespace) : (empty space).Filed where
  relationType := ⟨fun h => absurd h Index.not_mem_items_empty, fun ⟨_, h, _⟩ => by cases h⟩
  attributeType := ⟨fun h => absurd h Index.not_mem_items_empty, fun ⟨_, h, _⟩ => by cases h⟩

namespace Filed

variable (h : g.Filed)

include h

theorem eraseEdgeRecord (e : EdgeRef) : (g.eraseEdgeRecord e).Filed := by
  cases e with
  | relation id =>
    cases hr : g.relations.get? id with
    | none => simpa only [Graph.eraseEdgeRecord, hr] using h
    | some r =>
      simp only [Graph.eraseEdgeRecord, hr]
      exact ⟨Index.mem_items_remove_erase (fun r : Relation => Text.fold r.name) r h.relationType hr, h.attributeType⟩
  | attr id =>
    cases ha : g.attributes.get? id with
    | none => simpa only [Graph.eraseEdgeRecord, ha] using h
    | some a =>
      simp only [Graph.eraseEdgeRecord, ha]
      exact ⟨h.relationType, Index.mem_items_remove_erase (fun a : Attribute => Text.fold a.name) a h.attributeType ha⟩

/-- An edge may take the place of one on the same subject. -/
theorem withRecord (hw : ∀ v, g.record? w.ref = some v → v.subject = w.subject) : (g.withRecord w).Filed := by
  cases w with
  | relation r =>
    refine ⟨?_, h.attributeType⟩
    intro t k
    refine Index.mem_items_add_insert (fun r : Relation => Text.fold r.name) r h.relationType fun r₀ hr₀ => ?_
    have hsame : r₀.name = r.name := congrArg EdgeSubject.name
      (hw (.relation r₀) (by rw [EdgeRecord.ref, record?, hr₀, Option.map_some]))
    exact congrArg Text.fold hsame
  | attr a =>
    refine ⟨h.relationType, ?_⟩
    intro t k
    refine Index.mem_items_add_insert (fun a : Attribute => Text.fold a.name) a h.attributeType fun a₀ ha₀ => ?_
    have hsame : a₀.name = a.name := congrArg EdgeSubject.name
      (hw (.attr a₀) (by rw [EdgeRecord.ref, record?, ha₀, Option.map_some]))
    exact congrArg Text.fold hsame

theorem insertRelation {id : RelationId} {r : Relation} (hr : g.relations.get? id = some r)
    (modifiers : RelationModifiers) :
    Filed { g with relations := g.relations.insert id { r with modifiers := modifiers } } := by
  have hlisted (k : RelationId) (t : String) : (∃ r', g.relations.get? k = some r' ∧ Text.fold r'.name = t) ↔
      ∃ r', (g.relations.insert id { r with modifiers := modifiers }).get? k = some r' ∧ Text.fold r'.name = t := by
    rw [Table.lookup_insert]
    split
    · rename_i hk
      simp [hk, hr]
    · rfl
  exact ⟨h.relationType.trans (hlisted _ _), h.attributeType⟩

theorem resolve (name : String) (qualifier : Option String) : (g.resolve name qualifier).2.Filed :=
  resolve_induction h (fun _ _ => ⟨h.relationType, h.attributeType⟩) name qualifier

end Filed

end Graph

end Morphology
