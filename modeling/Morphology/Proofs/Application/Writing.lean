import Morphology.Proofs.Application
import Morphology.Proofs.Graph.Subjects

/-! What becomes of statements and fences in a graph whose frame agrees. A statement that fits the schema is always
written, and a fence always has its morph; in a larger graph both find what they made in a smaller one. -/

namespace Morphology

namespace GroundedEdge

/-- The graph with the target in it. -/
def room (g : Graph) : GroundedEdge → Graph
  | .relation r => (Graph.resolveTarget g r.target).2
  | .attr _ => g

def record (g : Graph) : GroundedEdge → EdgeRecord
  | .relation r => .relation (Relation.new r.source r.name (Graph.resolveTarget g r.target).1 r.modifiers)
  | .attr a => .attr (Attribute.new a.owner a.name a.value a.typed a.modifiers)

end GroundedEdge

namespace Graph

open Edit Grounding

section Upsert

variable {g : Graph} {k : MorphId} {m : Morph}

theorem hasEdge_withRecord (g : Graph) (w : EdgeRecord) : (g.withRecord w).hasEdge w.ref = true := by
  rw [hasEdge_eq, record?_withRecord, if_pos rfl, Option.isSome_some]

theorem succeeds_upsertRelation {r : Relation} (hm : g.morphs.get? k = some m) (ho : m.owner = r.source)
    (hs : g.nodes.contains r.source = true) (ht : g.nodes.contains r.target = true) :
    Succeeds (upsertRelation k r) g fun u g' =>
      u.edge = .relation r.id ∧ u.created = !g.hasEdge (.relation r.id) ∧ g' = g.upserted k (.relation r) := by
  obtain ⟨n, hn⟩ := Table.contains_iff.mp ht
  refine (ho ▸ succeeds_requireOwnedBy hm).bind fun _ g₀ hg₀ => ?_
  subst hg₀
  refine .demand_bind (requireNode_eq_ok.mpr hn) ?_
  refine .change_bind (putRelation_eq hs ht) ?_
  refine .change_bind (link_eq_linking hm (hasEdge_withRecord g₀ (.relation r))) ?_
  refine Succeeds.bind (P := fun _ g' => g' = g₀.upserted k (.relation r)) (.modify rfl) fun _ g₁ hg₁ => .pure ?_
  exact ⟨rfl, by simp [hasEdge, Table.contains], hg₁⟩

theorem succeeds_upsertAttribute {a : Attribute} (hm : g.morphs.get? k = some m) (ho : m.owner = a.owner)
    (hs : g.nodes.contains a.owner = true) :
    Succeeds (upsertAttribute k a) g fun u g' =>
      u.edge = .attr a.id ∧ u.created = !g.hasEdge (.attr a.id) ∧ g' = g.upserted k (.attr a) := by
  refine (ho ▸ succeeds_requireOwnedBy hm).bind fun _ g₀ hg₀ => ?_
  subst hg₀
  refine .change_bind (putAttribute_eq hs) ?_
  refine .change_bind (link_eq_linking hm (hasEdge_withRecord g₀ (.attr a))) ?_
  refine Succeeds.bind (P := fun _ g' => g' = g₀.upserted k (.attr a)) (.modify rfl) fun _ g₁ hg₁ => .pure ?_
  exact ⟨rfl, by simp [hasEdge, Table.contains], hg₁⟩

theorem ensures_upsertRelation (g : Graph) (k : MorphId) (r : Relation) :
    Ensures (upsertRelation k r) g fun u g' => g.Owns r.source k ∧ g.HasEnds (EdgeRecord.relation r).subject ∧
      u.edge = .relation r.id ∧ u.created = !g.hasEdge (.relation r.id) ∧ g' = g.upserted k (.relation r) := by
  have hchecked : Ensures (upsertRelation k r) g fun _ _ =>
      g.Owns r.source k ∧ g.nodes.contains r.source = true ∧ g.nodes.contains r.target = true := by
    refine .reads_bind (reads_requireOwnedBy k r.source) fun _ hk => .demand_bind fun _ _ => ?_
    exact (Ensures.change fun _ _ => putRelation_eq_ok).bind fun _ _ ⟨hs, ht, _⟩ _ _ _ => ⟨hk, hs, ht⟩
  intro u g' hrun
  obtain ⟨⟨m, hm, ho⟩, hs, ht⟩ := hchecked u g' hrun
  refine ⟨⟨m, hm, ho⟩, ⟨hs, ?_⟩, (succeeds_upsertRelation hm ho hs ht).ensures u g' hrun⟩
  rintro b ⟨⟩
  exact ht

theorem ensures_upsertAttribute (g : Graph) (k : MorphId) (a : Attribute) :
    Ensures (upsertAttribute k a) g fun u g' => g.Owns a.owner k ∧ g.HasEnds (EdgeRecord.attr a).subject ∧
      u.edge = .attr a.id ∧ u.created = !g.hasEdge (.attr a.id) ∧ g' = g.upserted k (.attr a) := by
  have hchecked : Ensures (upsertAttribute k a) g fun _ _ =>
      g.Owns a.owner k ∧ g.nodes.contains a.owner = true := by
    refine .reads_bind (reads_requireOwnedBy k a.owner) fun _ hk => ?_
    exact (Ensures.change fun _ _ => putAttribute_eq_ok).bind fun _ _ ⟨hs, _⟩ _ _ _ => ⟨hk, hs⟩
  intro u g' hrun
  obtain ⟨⟨m, hm, ho⟩, hs⟩ := hchecked u g' hrun
  exact ⟨⟨m, hm, ho⟩, ⟨hs, nofun⟩, (succeeds_upsertAttribute hm ho hs).ensures u g' hrun⟩

end Upsert

section Targets

variable {g : Graph} {name : String} {qualifier : Option String}

theorem lookup_eq (g : Graph) (name : String) (qualifier : Option String) :
    g.lookup name qualifier = (g.names.byName.get? (.ofName name qualifier)).bind g.nodes.get? := by
  rw [lookup, NameBook.lookup, NameKey.ofName_collapse]

theorem lookup_unknown (hk : g.names.byName.get? (.ofName name qualifier) = none) :
    g.lookup name qualifier = none := by
  rw [lookup_eq, hk, Option.bind_none]

variable (h : g.Framed)

include h

theorem Framed.lookup_known {id : NodeId} (hk : g.names.byName.get? (.ofName name qualifier) = some id) :
    ∃ n, g.lookup name qualifier = some n ∧ g.nodes.get? id = some n ∧ n.id = id := by
  obtain ⟨n, hn, -⟩ := h.named hk
  exact ⟨n, by rw [lookup_eq, hk, Option.bind_some, hn], hn, (h.node hn).1⟩

theorem Framed.lookup_eq_some {n : Node} : g.lookup name qualifier = some n ↔
    g.names.byName.get? (.ofName name qualifier) = some n.id ∧ g.nodes.get? n.id = some n := by
  rw [lookup_eq]
  constructor
  · intro hn
    obtain ⟨id, hk, hn⟩ := Option.bind_eq_some_iff.mp hn
    obtain ⟨rfl, -⟩ := h.node hn
    exact ⟨hk, hn⟩
  · rintro ⟨hk, hn⟩
    rw [hk, Option.bind_some, hn]

theorem Framed.lookup_grown {g' : Graph} (hg : g.Grown g') {n : Node}
    (hn : g.lookup name qualifier = some n) : ∃ n', g'.lookup name qualifier = some n' ∧ n.Grown n' := by
  cases hk : g.names.byName.get? (.ofName name qualifier) with
  | none =>
    rw [lookup_unknown hk] at hn
    cases hn
  | some id =>
    obtain ⟨n₁, hlookup, hn₁, -⟩ := h.lookup_known hk
    rw [hn] at hlookup
    cases hlookup
    obtain ⟨n', hn', hgn⟩ := hg.nodes hn₁
    exact ⟨n', by rw [lookup_eq, hg.names hk, Option.bind_some, hn'], hgn⟩

theorem Framed.resolveTarget_targetOf (s : RelationStatement) :
    resolveTarget g (targetOf g s) = g.resolve s.targetName s.targetQualifier := by
  cases hk : g.names.byName.get? (.ofName s.targetName s.targetQualifier) with
  | some id =>
    obtain ⟨n, hlookup, -, hid⟩ := h.lookup_known hk
    rw [targetOf, hlookup, resolve_known hk, ← hid]
    rfl
  | none =>
    rw [targetOf, lookup_unknown hk]
    show g.resolve (Text.collapse s.targetName) s.targetQualifier = _
    simp only [Graph.resolve, Text.collapse_collapse]

theorem Framed.targetType_targetOf (s : RelationStatement) :
    targetType g (targetOf g s) =
      (g.names.byName.get? (.ofName s.targetName s.targetQualifier)).bind (nodeTypeOf g) := by
  cases hk : g.names.byName.get? (.ofName s.targetName s.targetQualifier) with
  | some id =>
    obtain ⟨n, hlookup, -, hid⟩ := h.lookup_known hk
    rw [targetOf, hlookup, ← hid]
    rfl
  | none =>
    rw [targetOf, lookup_unknown hk]
    rfl

theorem Framed.contains_resolve (name : String) (qualifier : Option String) :
    (g.resolve name qualifier).2.nodes.contains (g.resolve name qualifier).1 = true := by
  obtain ⟨-, -, hname⟩ := h.resolve_spec name qualifier
  obtain ⟨n, hn, -⟩ := (h.resolve name qualifier).named hname
  exact Table.contains_iff.mpr ⟨n, hn⟩

end Targets

variable (schema : Schema) (o : NodeId) (line : Nat × Statement)

/-- The record that a statement under `o` leads to. -/
def recordFor (g : Graph) : EdgeRecord := (ofStatement schema g o line.2 line.1).edge.record g

/-- The graph with the target of a statement in it. -/
def roomFor (g : Graph) : Graph := (ofStatement schema g o line.2 line.1).edge.room g

theorem edge_ofStatement :
    (∃ s name modifiers, line.2 = .relation s ∧
      ∀ g, (ofStatement schema g o line.2 line.1).edge = .relation ⟨name, o, targetOf g s, modifiers⟩) ∨
    ∃ a, a.owner = o ∧ ∀ g, (ofStatement schema g o line.2 line.1).edge = .attr a := by
  obtain ⟨n, s⟩ := line
  cases s with
  | relation s =>
    refine Or.inl ⟨s, ((schema.relationType? s.name).map (·.name)).getD (Text.collapse s.name),
      ⟨s.adverb, s.modality, s.subjectQuantifier, s.targetQuantifier, s.targetQualifier⟩, rfl, fun g => ?_⟩
    simp only [ofStatement, ofRelation]
    cases schema.relationType? s.name <;> rfl
  | attr s =>
    have hedge : ∃ a, a.owner = o ∧ (ofAttribute schema o s n).edge = .attr a := by
      unfold ofAttribute
      cases schema.attributeType? s.name <;> exact ⟨_, rfl, rfl⟩
    obtain ⟨a, ho, hedge⟩ := hedge
    exact Or.inr ⟨a, ho, fun _ => hedge⟩

variable {o} {g g' : Graph}

theorem Framed.roomFor_spec (h : g.Framed) :
    (roomFor schema o line g).Framed ∧ g.Grown (roomFor schema o line g) ∧
      ∀ e, (roomFor schema o line g).record? e = g.record? e := by
  unfold roomFor
  obtain ⟨s, name, modifiers, -, hedge⟩ | ⟨a, -, hedge⟩ := edge_ofStatement schema o line
  · rw [hedge, GroundedEdge.room, h.resolveTarget_targetOf]
    obtain ⟨hgrown, hrecords, -⟩ := h.resolve_spec s.targetName s.targetQualifier
    exact ⟨h.resolve _ _, hgrown, hrecords⟩
  · rw [hedge]
    exact ⟨h, .refl g, fun _ => rfl⟩

/-- Once its target is there, a statement leads to the same record in every larger graph, and needs no room. -/
theorem Framed.recordFor_eq (h : g.Framed) (h' : g'.Framed) (hg : (roomFor schema o line g).Grown g') :
    recordFor schema o line g' = recordFor schema o line g ∧ roomFor schema o line g' = g' := by
  unfold recordFor roomFor at *
  obtain ⟨s, name, modifiers, -, hedge⟩ | ⟨a, -, hedge⟩ := edge_ofStatement schema o line
  · rw [hedge, GroundedEdge.room, h.resolveTarget_targetOf] at hg
    obtain ⟨-, -, hname⟩ := h.resolve_spec s.targetName s.targetQualifier
    have hknown := resolve_known (hg.names hname)
    simp only [hedge, GroundedEdge.record, GroundedEdge.room, h.resolveTarget_targetOf, h'.resolveTarget_targetOf,
      hknown, and_self]
  · simp only [hedge]
    exact ⟨rfl, rfl⟩

/-- What is objected to a statement does not change when a graph grows. -/
theorem Framed.errors_eq (h : g.Framed) (h' : g'.Framed) (hg : g.Grown g') :
    (ofStatement schema g' o line.2 line.1).errors = (ofStatement schema g o line.2 line.1).errors := by
  obtain ⟨n, s⟩ := line
  cases s with
  | attr s => rfl
  | relation s =>
    have htarget : targetType g' (targetOf g' s) = targetType g (targetOf g s) := by
      rw [h.targetType_targetOf, h'.targetType_targetOf]
      cases hk : g.names.byName.get? (.ofName s.targetName s.targetQualifier) with
      | some id => rw [hg.names hk, Option.bind_some, Option.bind_some, hg.typed]
      | none =>
        cases hk' : g'.names.byName.get? (.ofName s.targetName s.targetQualifier) with
        | none => rfl
        | some id =>
          rcases hg.untyped hk' with hold | htype
          · rw [hk] at hold
            cases hold
          · rw [Option.bind_some, hg.typed, htype, Option.bind_none]
    simp only [ofStatement, ofRelation, hg.typed, htarget]
    cases schema.relationType? s.name <;> rfl

theorem Framed.contains_of_owns {k : MorphId} (h : g.Framed) (hk : g.Owns o k) : g.nodes.contains o = true := by
  obtain ⟨m, hm, rfl⟩ := hk
  obtain ⟨n, hn, -⟩ := h.listed hm
  exact Table.contains_iff.mpr ⟨n, hn⟩

/-- The record belongs to the node that the statement stands under, and its ends are there when its target is. -/
theorem Framed.recordFor_spec (h : g.Framed) (ho : g.nodes.contains o = true) :
    (recordFor schema o line g).owner = o ∧ (recordFor schema o line g).IsComposed ∧
      (roomFor schema o line g).HasEnds (recordFor schema o line g).subject := by
  unfold recordFor roomFor
  obtain ⟨s, name, modifiers, -, hedge⟩ | ⟨a, rfl, hedge⟩ := edge_ofStatement schema o line
  · simp only [hedge, GroundedEdge.record, GroundedEdge.room, h.resolveTarget_targetOf]
    obtain ⟨hgrown, -, -⟩ := h.resolve_spec s.targetName s.targetQualifier
    refine ⟨rfl, rfl, hgrown.contains_node ho, ?_⟩
    rintro b ⟨⟩
    exact h.contains_resolve s.targetName s.targetQualifier
  · simp only [hedge]
    exact ⟨rfl, rfl, ho, nofun⟩

variable {k : MorphId} {m : Morph}

theorem Framed.succeeds_writeEdge (h : g.Framed) (hk : g.Owns o k) :
    Succeeds (writeEdge k (ofStatement schema g o line.2 line.1).edge) g fun u g' =>
      u.edge = (recordFor schema o line g).ref ∧ u.created = !g.hasEdge (recordFor schema o line g).ref ∧
      g' = (roomFor schema o line g).upserted k (recordFor schema o line g) := by
  have hs := h.contains_of_owns hk
  obtain ⟨m, hm, ho⟩ := hk
  unfold recordFor roomFor
  obtain ⟨s, name, modifiers, -, hedge⟩ | ⟨a, rfl, hedge⟩ := edge_ofStatement schema o line
  · obtain ⟨hgrown, hrecords, -⟩ := h.resolve_spec s.targetName s.targetQualifier
    obtain ⟨m₁, hm₁, ho₁⟩ := hgrown.owns ⟨m, hm, ho⟩
    simp only [hedge, GroundedEdge.record, GroundedEdge.room, h.resolveTarget_targetOf]
    refine Succeeds.bind (P := fun target g₁ => (target, g₁) = g.resolve s.targetName s.targetQualifier)
      (.modifyGet (h.resolveTarget_targetOf s)) fun target g₁ hg₁ => ?_
    rw [← hg₁] at hgrown hrecords hm₁ ⊢
    have ht : g₁.nodes.contains target = true := by
      have hcontains := h.contains_resolve s.targetName s.targetQualifier
      rwa [← hg₁] at hcontains
    refine (succeeds_upsertRelation hm₁ ho₁ (hgrown.contains_node hs) ht).mono fun u g' ⟨he, hc, hg'⟩ => ⟨he, ?_, hg'⟩
    rw [hc, hasEdge_eq, hasEdge_eq, hrecords]
    rfl
  · simp only [hedge]
    exact succeeds_upsertAttribute (a := Attribute.new _ _ _ _ _) hm ho hs

theorem Framed.applyStatement_eq (h : g.Framed) (hk : g.Owns o k) (label : String) :
    applyStatement schema label o k line g =
      if (ofStatement schema g o line.2 line.1).errors.isEmpty then
        ({ applied := [⟨label, line.1, (recordFor schema o line g).ref, !g.hasEdge (recordFor schema o line g).ref⟩] },
          (roomFor schema o line g).upserted k (recordFor schema o line g))
      else ({ ungrounded := (ofStatement schema g o line.2 line.1).errors }, g) := by
  obtain ⟨u, g', hrun, hedge, hcreated, rfl⟩ := h.succeeds_writeEdge schema line hk
  unfold applyStatement
  simp only [hrun, hedge, hcreated]

section Fences

variable {n : Node} {label : Option String}

/-- Of morphs that are all there, the same one is found first in a larger graph. -/
theorem Grown.find_morph (hg : g.Grown g') (p : Option String → Bool) {ks : List MorphId}
    (hks : ∀ k ∈ ks, ∃ m, g.morphs.get? k = some m) :
    (∀ m, ((ks.filterMap g.morphs.get?).find? fun m => p m.name) = some m →
      ∃ m', ((ks.filterMap g'.morphs.get?).find? fun m => p m.name) = some m' ∧ m.Grown m') ∧
    (((ks.filterMap g.morphs.get?).find? fun m => p m.name) = none →
      ((ks.filterMap g'.morphs.get?).find? fun m => p m.name) = none) := by
  induction ks with
  | nil => exact ⟨nofun, fun _ => rfl⟩
  | cons k ks ih =>
    obtain ⟨m, hm⟩ := hks k List.mem_cons_self
    obtain ⟨m', hm', hgm⟩ := hg.morphs hm
    rw [List.filterMap_cons_some hm, List.filterMap_cons_some hm', List.find?_cons, List.find?_cons,
      (Morph.bare_inj hgm.bare).2.1]
    cases p m.name with
    | true =>
      refine ⟨fun m₁ hm₁ => ?_, fun hnone => by cases hnone⟩
      cases hm₁
      exact ⟨m', rfl, hgm⟩
    | false => exact ih fun l hl => hks l (List.mem_cons_of_mem _ hl)

theorem Framed.basic_there (h : g.Framed) (hn : g.nodes.get? o = some n) :
    ∃ m, g.morphs.get? n.basicMorph = some m ∧ m.owner = o := by
  obtain ⟨-, hnum⟩ := h.node hn
  exact h.present hn (hnum.basicMorph_eq ▸ List.mem_of_mem_head? hnum.basic)

theorem Framed.morphNamed_grown (h : g.Framed) (h' : g'.Framed) (hg : g.Grown g') (hm : g.morphNamed o label = some m) :
    ∃ m', g'.morphNamed o label = some m' ∧ m.Grown m' := by
  unfold morphNamed at hm
  cases hn : g.nodes.get? o with
  | none => simp [hn] at hm
  | some n =>
    obtain ⟨n', hn', hgn⟩ := hg.nodes hn
    simp only [hn] at hm
    unfold morphNamed
    simp only [hn']
    cases label with
    | none =>
      obtain ⟨m', hm', hgm⟩ := hg.morphs hm
      have hbasic : n'.basicMorph = n.basicMorph := by
        rw [(h.node hn).2.basicMorph_eq, (h'.node hn').2.basicMorph_eq, hgn.id]
      exact ⟨m', by rw [hbasic, hm'], hgm⟩
    | some name =>
      obtain ⟨more, hmore⟩ := hgn.morphs
      obtain ⟨hfound, -⟩ := hg.find_morph (fun a => a.map Text.fold == some (Text.fold name))
        fun k hk => (h.present hn hk).imp fun _ => And.left
      obtain ⟨m', hm', hgm⟩ := hfound m hm
      refine ⟨m', ?_, hgm⟩
      simp only [morphsOf]
      rw [← hmore, List.filterMap_append, List.find?_append, hm', Option.some_or]

theorem Framed.morphNamed_present (h : g.Framed) (hm : g.morphNamed o label = some m) :
    g.morphs.get? m.id = some m ∧ m.owner = o := by
  unfold morphNamed at hm
  cases hn : g.nodes.get? o with
  | none => simp [hn] at hm
  | some n =>
  have hlisted {k : MorphId} (hk : k ∈ n.morphs) (hm : g.morphs.get? k = some m) :
      g.morphs.get? m.id = some m ∧ m.owner = o :=
    ⟨(h.morph hm).symm ▸ hm, (h.mem_morphs_iff hn hm).mp hk⟩
  simp only [hn] at hm
  cases label with
  | none => exact hlisted ((h.node hn).2.basicMorph_eq ▸ List.mem_of_mem_head? (h.node hn).2.basic) hm
  | some name =>
    obtain ⟨k, hk, hkm⟩ := List.mem_filterMap.mp (List.mem_of_find?_eq_some hm)
    exact hlisted hk hkm

/-- None of the old morphs has the name, in the new graph either, so the new one is the first to have it. -/
theorem Framed.morphNamed_createMorph (h : g.Framed) (hn : g.nodes.get? n.id = some n) {name : String}
    (hfree : g.morphNamed n.id (some name) = none) :
    (g.withMorph g.names n.withMorph (MorphId.ofNode n.id n.nextMorph) (some name)).morphNamed n.id (some name) =
      some (Morph.new (MorphId.ofNode n.id n.nextMorph) n.id (some name)) := by
  simp only [morphNamed, hn] at hfree
  obtain ⟨-, hnone⟩ := (h.grown_createMorph hn (some name)).find_morph
    (fun a => a.map Text.fold == some (Text.fold name)) fun k hk => (h.present hn hk).imp fun _ => And.left
  have hnode : (g.withMorph g.names n.withMorph (MorphId.ofNode n.id n.nextMorph) (some name)).nodes.get? n.id =
      some n.withMorph := nodes_withMorph_self
  unfold morphNamed
  rw [hnode]
  show ((n.morphs ++ [_]).filterMap _).find? _ = _
  rw [List.filterMap_append, List.find?_append]
  refine (congrArg (Option.or · _) (hnone hfree)).trans ?_
  rw [Option.none_or, List.filterMap_cons_some morphs_withMorph_self]
  simp [Morph.new]
  rfl

/-- The graph with a morph more at the end of a node's list. -/
def withNamed (g : Graph) (n : Node) (name : String) : Graph :=
  (g.withMorph g.names n.withMorph (MorphId.ofNode n.id n.nextMorph) (some name)).modifyNode n.id Node.bump

theorem Framed.withNamed (h : g.Framed) (hn : g.nodes.get? n.id = some n) (name : String) :
    (g.withNamed n name).Framed ∧ g.Grown (g.withNamed n name) :=
  ⟨(SameFrame.modifyNode _ n.id (f := Node.bump) fun _ => rfl).framed (h.createMorph hn (some name)),
    (h.grown_createMorph hn (some name)).trans (grown_bump _ _)⟩

theorem Framed.addMorph_eq (h : g.Framed) (hn : g.nodes.get? o = some n) {name : String}
    (hname : Text.collapse? (some name) = some name) (hfree : g.morphNamed o (some name) = none) :
    addMorph o (some name) none g = .ok (MorphId.ofNode n.id n.nextMorph) (g.withNamed n name) := by
  obtain ⟨rfl, -⟩ := h.node hn
  have hnot : ¬((g.morphsOf n).any fun m => m.name.map Text.fold == some (Text.fold name)) = true := by
    simpa [morphNamed, hn] using hfree
  have hadded : Succeeds (addMorph n.id (some name) none) g fun k g' =>
      k = MorphId.ofNode n.id n.nextMorph ∧ g' = g.withNamed n name := by
    refine .demand_bind (requireNode_eq_ok.mpr hn) (.get_bind ?_)
    simp only [hname, hnot]
    refine Succeeds.bind (P := fun refs g' => refs = [] ∧ g' = g) (.pure ⟨rfl, rfl⟩) fun refs g₀ hstart => ?_
    obtain ⟨rfl, rfl⟩ := hstart
    refine .change_bind (createMorph_eq hn rfl) ?_
    refine Succeeds.bind (P := fun _ g' => g' = _) (.pure rfl) fun _ g₁ hg => ?_
    refine Succeeds.bind (P := fun _ g' => g' = g₁.modifyNode n.id Node.bump) (.modify rfl) fun _ g₂ hg' => .pure ?_
    subst hg hg'
    exact ⟨rfl, rfl⟩
  obtain ⟨_, _, hrun, rfl, rfl⟩ := hadded
  exact hrun

/-- A morph of a name that no morph has is the one of that name once it is made. -/
theorem Framed.morphNamed_withNamed (h : g.Framed) (hn : g.nodes.get? n.id = some n) {name : String}
    (hfree : g.morphNamed n.id (some name) = none) :
    ∃ m, (g.withNamed n name).morphNamed n.id (some name) = some m ∧ m.id = MorphId.ofNode n.id n.nextMorph := by
  obtain ⟨h₂, -⟩ := h.withNamed hn name
  obtain ⟨m, hm, hgm⟩ :=
    (h.createMorph hn (some name)).morphNamed_grown h₂ (grown_bump _ n.id) (h.morphNamed_createMorph hn hfree)
  exact ⟨m, hm, (Morph.bare_inj hgm.bare).1⟩

/-- A morph that has the name already is the one a fence is about. -/
theorem fenceMorph_named (hm : g.morphNamed o label = some m) : fenceMorph o label g = .ok m.id g := by
  have hfound : Succeeds (fenceMorph o label) g fun k g' => k = m.id ∧ g' = g := by
    refine .get_bind ?_
    rw [hm]
    exact .pure ⟨rfl, rfl⟩
  obtain ⟨_, _, hrun, rfl, rfl⟩ := hfound
  exact hrun

/-- A fence without a label is about the basic morph, which is always there. -/
theorem Framed.fenceMorph_cases (h : g.Framed) (hn : g.nodes.get? o = some n) (hlabel : Text.collapse? label = label) :
    (∃ m, g.morphNamed o label = some m ∧ fenceMorph o label g = .ok m.id g) ∨
      ∃ name, label = some name ∧ g.morphNamed o label = none ∧
        fenceMorph o label g = .ok (MorphId.ofNode n.id n.nextMorph) (g.withNamed n name) := by
  cases hm : g.morphNamed o label with
  | some m => exact Or.inl ⟨m, rfl, fenceMorph_named hm⟩
  | none =>
    cases label with
    | none =>
      obtain ⟨m, hbasic, -⟩ := h.basic_there hn
      simp only [morphNamed, hn, hbasic] at hm
      cases hm
    | some name =>
      refine Or.inr ⟨name, rfl, rfl, ?_⟩
      have hadded : Succeeds (fenceMorph o (some name)) g fun k g' =>
          k = MorphId.ofNode n.id n.nextMorph ∧ g' = g.withNamed n name := by
        refine .get_bind ?_
        rw [hm]
        exact ⟨_, _, h.addMorph_eq hn hlabel hm, rfl, rfl⟩
      obtain ⟨_, _, hrun, rfl, rfl⟩ := hadded
      exact hrun

theorem Framed.succeeds_fenceMorph (h : g.Framed) (ho : g.nodes.contains o = true)
    (hlabel : Text.collapse? label = label) :
    Succeeds (fenceMorph o label) g fun k g' => g'.Framed ∧ g.Grown g' ∧ (∀ e, g'.record? e = g.record? e) ∧
      ∃ m, g'.morphNamed o label = some m ∧ m.id = k := by
  obtain ⟨n, hn⟩ := Table.contains_iff.mp ho
  obtain ⟨rfl, -⟩ := h.node hn
  rcases h.fenceMorph_cases hn hlabel with ⟨m, hm, hrun⟩ | ⟨name, rfl, hfree, hrun⟩
  · exact ⟨m.id, g, hrun, h, .refl g, fun _ => rfl, m, hm, rfl⟩
  · obtain ⟨h', hgrown⟩ := h.withNamed hn name
    exact ⟨_, _, hrun, h', hgrown, fun e => by cases e <;> rfl, h.morphNamed_withNamed hn hfree⟩

variable (schema : Schema)

/-- A fence first makes its morph, if need be. -/
theorem Framed.applyFence_spec (h : g.Framed) (ho : g.nodes.contains o = true) (label : String) {fence : Fence}
    (hlabel : Text.collapse? fence.label = fence.label) :
    ∃ m g₁, g₁.Framed ∧ g.Grown g₁ ∧ (∀ e, g₁.record? e = g.record? e) ∧ g₁.morphNamed o fence.label = some m ∧
      applyFence schema label o fence g = applyEach (applyStatement schema label o m.id) fence.statements g₁ := by
  obtain ⟨_, g₁, hrun, h₁, hg₁, hrecords, m, hm, rfl⟩ := h.succeeds_fenceMorph ho hlabel
  exact ⟨m, g₁, h₁, hg₁, hrecords, hm, by rw [applyFence, hrun]⟩

theorem Framed.applyBlock_eq (h : g.Framed) (block : Block) :
    ∃ n, (g.resolve block.name block.qualifier).1 = n.id ∧
      (g.resolve block.name block.qualifier).2.nodes.get? n.id = some n ∧
      applyBlock schema block g = ({ unread := block.errors } ++
        (applyEach (applyFence schema n.displayName n.id) block.fences (g.resolve block.name block.qualifier).2).1,
        (applyEach (applyFence schema n.displayName n.id) block.fences (g.resolve block.name block.qualifier).2).2) := by
  obtain ⟨n, hn⟩ := Table.contains_iff.mp (h.contains_resolve block.name block.qualifier)
  obtain ⟨hid, -⟩ := (h.resolve block.name block.qualifier).node hn
  refine ⟨n, hid.symm, hid ▸ hn, ?_⟩
  rw [hid, applyBlock]
  simp only [hn, Option.map_some, Option.getD_some]

/-- A block first makes its node, if need be. -/
theorem Framed.applyBlock_spec (h : g.Framed) (block : Block) :
    ∃ n g₁, g₁.Framed ∧ g.Grown g₁ ∧ (∀ e, g₁.record? e = g.record? e) ∧
      g₁.names.byName.get? (.ofName block.name block.qualifier) = some n.id ∧ g₁.nodes.get? n.id = some n ∧
      applyBlock schema block g = ({ unread := block.errors } ++
        (applyEach (applyFence schema n.displayName n.id) block.fences g₁).1,
        (applyEach (applyFence schema n.displayName n.id) block.fences g₁).2) := by
  obtain ⟨hg₁, hrecords, hname⟩ := h.resolve_spec block.name block.qualifier
  obtain ⟨n, hid, hn, happly⟩ := h.applyBlock_eq schema block
  exact ⟨n, _, h.resolve _ _, hg₁, hrecords, hid ▸ hname, hn, happly⟩

end Fences

end Graph

end Morphology
