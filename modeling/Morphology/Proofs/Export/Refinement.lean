import Morphology.Proofs.Application
import Morphology.Proofs.Export.Keeping

/-! Applying documents to a graph that keeps a ledger. Each step of the application is a step of the ledger, and no
statement is refused by the graph. -/

namespace Morphology

open Text

theorem Report.errorCount_append (r r' : Report) : (r ++ r').errorCount = r.errorCount + r'.errorCount := by
  show (r.append r').errorCount = _
  simp only [errorCount, append, List.length_append]
  omega

/-- Steps on graphs that follow steps on something else, with a report free of errors for every good item. -/
theorem applyEach_refines {α β : Type} {step : α → Graph → Report × Graph} {f : β → α → β} {I : Graph → β → Prop}
    {p : α → Prop} {items : List α} {g : Graph} {b : β}
    (hstep : ∀ item ∈ items, ∀ g b, I g b →
      I (step item g).2 (f b item) ∧ (p item → (step item g).1.errorCount = 0))
    (h : I g b) :
    I (applyEach step items g).2 (items.foldl f b) ∧
      ((∀ item ∈ items, p item) → (applyEach step items g).1.errorCount = 0) := by
  induction items generalizing g b with
  | nil => exact ⟨h, fun _ => rfl⟩
  | cons item items ih =>
    obtain ⟨hhead, hgood⟩ := hstep item List.mem_cons_self g b h
    obtain ⟨htail, hgoods⟩ := ih (fun i hi => hstep i (List.mem_cons_of_mem _ hi)) hhead
    refine ⟨htail, fun hall => ?_⟩
    show ((step item g).1 ++ _).errorCount = 0
    rw [Report.errorCount_append, hgood (hall item List.mem_cons_self),
      hgoods fun i hi => hall i (List.mem_cons_of_mem _ hi)]

namespace Graph

open Edit

variable {schema : Schema} {a : Ledger} {g g' : Graph} {key : NameKey} {id : NodeId} {c : Account} {i : Nat}

namespace Keeps

variable (h : g.Keeps schema a)

include h

theorem resolve {name : String} {qualifier : Option String} (hname : IsProper name)
    (hqualifier : ∀ q ∈ qualifier, IsWordy q) :
    (g.resolve name qualifier).2.Keeps schema (a.enter name qualifier) ∧
      (g.resolve name qualifier).2.names.byName.get? (.ofName name qualifier) = some (g.resolve name qualifier).1 ∧
      ∀ k o, g.names.byName.get? k = some o → (g.resolve name qualifier).2.names.byName.get? k = some o := by
  cases hid : g.names.byName.get? (.ofName name qualifier) with
  | some id =>
    obtain ⟨c, -, hc, -⟩ := h.node hid
    rw [resolve_known hid, Ledger.enter_of_known ⟨c, hc⟩]
    exact ⟨h, hid, fun _ _ hk => hk⟩
  | none =>
    have hkey := NameKey.ofName_collapse name qualifier
    have hproper : IsProper (collapse name) := by rwa [hname.2.1]
    have hnone : g.names.byName.get? (.ofName (collapse name) (collapse? qualifier)) = none := by rw [hkey, hid]
    rw [resolve_unknown hid, Ledger.enter_of_unknown (h.unknown hid), ← hkey]
    have hbook := NameBook.register_unknown (g.names.mint (collapse name) (collapse? qualifier)) hnone
    have hnames (k : NameKey) : (g.names.register (g.names.mint (collapse name) (collapse? qualifier)) (collapse name)
        (collapse? qualifier)).2.byName.get? k = if k = .ofName (collapse name) (collapse? qualifier) then
          some (g.names.mint (collapse name) (collapse? qualifier)) else g.names.byName.get? k := by
      rw [hbook]
      exact Table.lookup_insert
    refine ⟨h.addNode hproper (isProper_of_mem_collapse? hqualifier) (by rw [hbook]) hnames (fun k => ?_)
      (NameBook.mint_isRooted _ _ _) (NameBook.mint_free _ _ _) hnone, (hnames _).trans (if_pos rfl), fun k o hk => ?_⟩
    · rw [hbook]
      exact KeySet.contains_add
    · refine (hnames k).trans ?_
      rw [if_neg, hk]
      rintro rfl
      rw [hnone] at hk
      cases hk

theorem resolveTarget (s : RelationStatement) :
    Graph.resolveTarget g (Grounding.targetOf g s) = g.resolve s.targetName s.targetQualifier := by
  have hkey := NameKey.ofName_collapse s.targetName s.targetQualifier
  cases hid : g.names.byName.get? (.ofName s.targetName s.targetQualifier) with
  | some id =>
    obtain ⟨c, v, -, hn⟩ := h.node hid
    have hlookup : g.lookup s.targetName s.targetQualifier = some (c.node id v) := by
      rw [Graph.lookup, NameBook.lookup, hkey, hid]
      exact hn
    rw [Grounding.targetOf, hlookup, resolve_known hid]
    rfl
  | none =>
    have hlookup : g.lookup s.targetName s.targetQualifier = none := by
      rw [Graph.lookup, NameBook.lookup, hkey, hid]
      rfl
    rw [Grounding.targetOf, hlookup]
    show g.resolve (collapse s.targetName) s.targetQualifier = _
    simp only [Graph.resolve, collapse_collapse]

theorem nodeTypeOf (id : NodeId) : Grounding.nodeTypeOf g id = none := by
  unfold Grounding.nodeTypeOf
  cases hn : g.nodes.get? id with
  | none => rfl
  | some n =>
    obtain ⟨key, hkey⟩ := h.named (Table.contains_iff.mpr ⟨n, hn⟩)
    obtain ⟨c, v, -, hn'⟩ := h.node hkey
    rw [hn] at hn'
    cases hn'
    rfl

end Keeps

end Graph

namespace Graph

open Edit

variable {schema : Schema} {a : Ledger} {g g' : Graph} {key : NameKey} {id : NodeId} {c : Account} {i : Nat}

namespace Keeps

variable (h : g.Keeps schema a)

include h

theorem upsertRelation {x : RelationKey} {m : RelationModifiers} {q : Option String}
    (hid : g.names.byName.get? key = some id) (hc : a key = some c) (hi : i < c.size)
    (he : schema.Admits a.Known (.relation x m)) (hq : q.isSome → x.target.qualifier.isSome) :
    Succeeds (Edit.upsertRelation (.ofNode id i)
        (Relation.new id x.name (g.names.idOf x.target) { m with qualifier := q })) g fun _ g' =>
      g'.Keeps schema (Function.update a key (some (c.post i (.relation x m)))) ∧ g'.names = g.names := by
  have hm := h.morph hid hc hi
  have htarget := h.contains_node (h.get?_of_known he.2.2.1)
  obtain ⟨n, hn⟩ := Table.contains_iff.mp htarget
  have hwrites := writes_withRelation g id x m hq
  obtain ⟨added, g₂, hrun, hl, -⟩ := Graph.link_eq (hwrites.morphs ▸ hm) hwrites.hasEdge
  have h₂ := h.post hid hc hi he hwrites hl
  refine (Edit.succeeds_requireOwnedBy hm).bind fun _ g₀ hg₀ => ?_
  subst hg₀
  refine .demand_bind (requireNode_eq_ok.mpr hn) ?_
  refine .change_bind (putRelation_eq (h.contains_node hid) htarget) ?_
  refine .change_bind hrun ?_
  refine Succeeds.bind (P := fun _ g' => g' = g₂.modifyNode id Node.bump) (.modify rfl) fun _ g' hg' => .pure ?_
  subst hg'
  exact ⟨h₂.modifyNode_bump id, hl.names⟩

theorem upsertAttribute {name value : String} {typed : Option Value} {m : AttributeModifiers}
    (hid : g.names.byName.get? key = some id) (hc : a key = some c) (hi : i < c.size)
    (he : schema.Admits a.Known (.attr name value typed m)) :
    Succeeds (Edit.upsertAttribute (.ofNode id i) (Attribute.new id name value typed m)) g fun _ g' =>
      g'.Keeps schema (Function.update a key (some (c.post i (.attr name value typed m)))) ∧ g'.names = g.names := by
  have hm := h.morph hid hc hi
  have hwrites := writes_withAttribute g id name value typed m
  obtain ⟨added, g₂, hrun, hl, -⟩ := Graph.link_eq (hwrites.morphs ▸ hm) hwrites.hasEdge
  have h₂ := h.post hid hc hi he hwrites hl
  refine (Edit.succeeds_requireOwnedBy hm).bind fun _ g₀ hg₀ => ?_
  subst hg₀
  refine .change_bind (putAttribute_eq (h.contains_node hid)) ?_
  refine .change_bind hrun ?_
  refine Succeeds.bind (P := fun _ g' => g' = g₂.modifyNode id Node.bump) (.modify rfl) fun _ g' hg' => .pure ?_
  subst hg'
  exact ⟨h₂.modifyNode_bump id, hl.names⟩

end Keeps

/-! ## Statements on a page -/

/-- The graph keeps the ledger, and morph `i` of the node stands for a page that is there. -/
structure OnPage (schema : Schema) (key : NameKey) (id : NodeId) (i : Nat) (g : Graph) (a : Ledger) : Prop where
  keeps : g.Keeps schema a
  named : g.names.byName.get? key = some id
  page : ∃ c, a key = some c ∧ i < c.size

theorem checkValue_line (d : AttributeType) (value : String) (n : Nat) :
    (Grounding.checkValue d value n).1 = (Grounding.checkValue d value 0).1 ∧
      ((Grounding.checkValue d value n).2 = [] ↔ (Grounding.checkValue d value 0).2 = []) := by
  unfold Grounding.checkValue
  split
  · simp
  · split <;> simp

theorem entry?_attr_eq_some {s : AttributeStatement} {e : Entry} :
    schema.entry? (.attr s) = some e ↔ ∃ d, schema.attributeType? s.name = some d ∧
      (Grounding.checkValue d s.value 0).2 = [] ∧
      e = .attr d.name s.value (Grounding.checkValue d s.value 0).1 ⟨s.unit, s.adverb, s.modality, none⟩ := by
  simp only [Schema.entry?, Option.bind_eq_some_iff]
  refine exists_congr fun d => and_congr_right fun _ => ?_
  split
  · rename_i hcheck
    simp [hcheck, eq_comm]
  · rename_i hcheck
    simp [hcheck]

theorem Keeps.targetType (h : g.Keeps schema a) (t : Target) : Grounding.targetType g t = none := by
  cases t with
  | resolved id => exact h.nodeTypeOf id
  | pending name qualifier => rfl

theorem Keeps.errors_eq_nil (h : g.Keeps schema a) (s : Statement) (n : Nat) :
    (Grounding.ofStatement schema g id s n).errors = [] ↔ (schema.entry? s).isSome := by
  cases s with
  | relation s =>
    rw [Grounding.ofStatement, Grounding.ofRelation, Schema.entry?]
    cases schema.relationType? s.name with
    | none => simp
    | some d => simp [h.nodeTypeOf, h.targetType, Grounding.checkEnd]
  | attr s =>
    rw [Grounding.ofStatement, Grounding.ofAttribute, Option.isSome_iff_exists]
    simp only [entry?_attr_eq_some]
    cases schema.attributeType? s.name with
    | none => simp
    | some d => simp [checkValue_line d s.value n]

namespace OnPage

variable (hw : schema.Wordy) (h : OnPage schema key id i g a)

include hw h

theorem writeRelation {s : RelationStatement} {d : RelationType} (hs : ∀ t ∈ (Statement.relation s).texts, IsProper t)
    (hd : schema.relationType? s.name = some d) {e : Entry} (he : schema.entry? (.relation s) = some e) (n : Nat) :
    ∃ u g', writeEdge (.ofNode id i) (Grounding.ofRelation schema g id s n).edge g = .ok u g' ∧
      OnPage schema key id i g' ((a.enterTarget (.relation s)).modify key (.post i e)) := by
  obtain ⟨hkeeps, hid, c, hc, hi⟩ := h
  obtain ⟨-, htarget, -, -, -, hqualifier, -⟩ := RelationStatement.forall_texts.mp hs
  let m : RelationModifiers := ⟨s.adverb, s.modality, s.subjectQuantifier, s.targetQuantifier, none⟩
  let x : RelationKey := ⟨d.name, .ofName s.targetName s.targetQualifier⟩
  obtain rfl : e = .relation x m := by
    rw [Schema.entry?, hd] at he
    exact (Option.some.inj he).symm
  -- The target may be added to the graph first; the ids that names had before are the same after that.
  obtain ⟨h₁, htid, hkept⟩ := hkeeps.resolve htarget fun q hq => (hqualifier q hq).2
  have hc₁ : a.enterTarget (.relation s) key = some c := Ledger.enterTarget_known (.relation s) hc
  have hadmits : schema.Admits (a.enterTarget (.relation s)).Known (.relation x m) :=
    Schema.entry?_admits hw hs (Ledger.knowsTarget_enterTarget a (.relation s)) he
  have hq : s.targetQualifier.isSome → x.target.qualifier.isSome := by
    intro hsome
    obtain ⟨q, hq⟩ := Option.isSome_iff_exists.mp hsome
    simp [x, NameKey.ofName, hq, Option.filter, (hqualifier q hq).fold_ne]
  obtain ⟨u, g', hrun, hk', hnames⟩ := h₁.upsertRelation (hkept key id hid) hc₁ hi hadmits hq
  rw [Ledger.modify_eq hc₁]
  refine ⟨u, g', ?_, hk', ?_, _, Function.update_self .., hi⟩
  · have htid' : (g.resolve s.targetName s.targetQualifier).2.names.idOf x.target =
        (g.resolve s.targetName s.targetQualifier).1 := by
      rw [NameBook.idOf, htid]
      rfl
    rw [htid', ← hkeeps.resolveTarget] at hrun
    simp only [Grounding.ofRelation, hd]
    exact hrun
  · rw [hnames]
    exact hkept key id hid

theorem writeAttribute {s : AttributeStatement} {d : AttributeType} (hs : ∀ t ∈ (Statement.attr s).texts, IsProper t)
    (hd : schema.attributeType? s.name = some d) {e : Entry} (he : schema.entry? (.attr s) = some e) (n : Nat) :
    ∃ u g', writeEdge (.ofNode id i) (Grounding.ofAttribute schema id s n).edge g = .ok u g' ∧
      OnPage schema key id i g' (a.modify key (.post i e)) := by
  obtain ⟨hkeeps, hid, c, hc, hi⟩ := h
  have hadmits : schema.Admits a.Known e := Schema.entry?_admits hw (s := .attr s) hs trivial he
  obtain ⟨d', hd', hcheck, rfl⟩ := entry?_attr_eq_some.mp he
  obtain rfl : d = d' := Option.some.inj (hd.symm.trans hd')
  obtain ⟨u, g', hrun, hk', hnames⟩ := hkeeps.upsertAttribute hid hc hi hadmits
  rw [Ledger.modify_eq hc]
  refine ⟨u, g', ?_, hk', ?_, _, Function.update_self .., hi⟩
  · simp only [Grounding.ofAttribute, hd, (checkValue_line d s.value n).1]
    exact hrun
  · rw [hnames, hid]

theorem applyStatement (label : String) {line : Nat × Statement} (hs : ∀ t ∈ line.2.texts, IsProper t) :
    OnPage schema key id i (Graph.applyStatement schema label id (.ofNode id i) line g).2
        (a.applyStatement schema key i line.2) ∧
      ((schema.entry? line.2).isSome →
        (Graph.applyStatement schema label id (.ofNode id i) line g).1.errorCount = 0) := by
  obtain ⟨n, s⟩ := line
  have hgrounded : (Grounding.ofStatement schema g id s n).errors = [] ↔ (schema.entry? s).isSome :=
    h.keeps.errors_eq_nil s n
  cases he : schema.entry? s with
  -- A statement that the schema has no entry for is not grounded, and changes nothing.
  | none =>
    have hne : (Grounding.ofStatement schema g id s n).errors ≠ [] := by simp [hgrounded, he]
    have hungrounded : (Graph.applyStatement schema label id (.ofNode id i) (n, s) g).2 = g := by
      simp [Graph.applyStatement, hne]
    rw [hungrounded, Ledger.applyStatement, he]
    exact ⟨h, fun hsome => by cases hsome⟩
  | some e =>
    have hnil : (Grounding.ofStatement schema g id s n).errors = [] := by simp [hgrounded, he]
    have hwrite : ∃ u g', writeEdge (.ofNode id i) (Grounding.ofStatement schema g id s n).edge g = .ok u g' ∧
        OnPage schema key id i g' ((a.enterTarget s).modify key (.post i e)) := by
      cases s with
      | relation s =>
        obtain ⟨d, hd, -⟩ := Option.map_eq_some_iff.mp he
        exact h.writeRelation hw hs hd he n
      | attr s =>
        obtain ⟨d, hd, -⟩ := entry?_attr_eq_some.mp he
        exact h.writeAttribute hw hs hd he n
    obtain ⟨u, g', hrun, h'⟩ := hwrite
    have hreport : Graph.applyStatement schema label id (.ofNode id i) (n, s) g =
        ({ applied := [⟨label, n, u.edge, u.created⟩] }, g') := by
      simp only [Graph.applyStatement, hnil, List.isEmpty_nil, if_true, hrun]
    rw [hreport, Ledger.applyStatement, he]
    exact ⟨h', fun _ => rfl⟩

end OnPage

/-! ## Fences, blocks and documents -/

namespace Keeps

variable (h : g.Keeps schema a)

include h

theorem morphNamed (hid : g.names.byName.get? key = some id) (hc : a key = some c) (label : String) :
    g.morphNamed id (some label) = (c.find? label).map fun i => (c.page i).morph g.names.idOf id i := by
  obtain ⟨c', v, hc', hn⟩ := h.node hid
  obtain rfl : c' = c := Option.some.inj (hc'.symm.trans hc)
  simp only [Graph.morphNamed, hn, h.morphsOf hid hc, List.find?_map]
  rfl

theorem morphNamed_none (hid : g.names.byName.get? key = some id) (hc : a key = some c) :
    g.morphNamed id none = some ((c.page 0).morph g.names.idOf id 0) := by
  obtain ⟨c', v, hc', hn⟩ := h.node hid
  obtain rfl : c' = c := Option.some.inj (hc'.symm.trans hc)
  have hsize := (h.sound.account hc).2.size
  simp only [Graph.morphNamed, hn, Account.basicMorph_node hsize]
  exact h.morph hid hc hsize

theorem addMorph {label : String} (hid : g.names.byName.get? key = some id) (hc : a key = some c)
    (hlabel : IsProper label) (hfree : c.find? label = none) :
    Succeeds (Edit.addMorph id (some label) none) g fun k g' => k = .ofNode id c.size ∧
      g'.Keeps schema (Function.update a key (some (c.addPage label))) ∧ g'.names = g.names := by
  obtain ⟨c', v, hc', hn⟩ := h.node hid
  obtain rfl : c' = c := Option.some.inj (hc'.symm.trans hc)
  have hnot : ¬((g.morphsOf (c'.node id v)).any fun m => m.name.map fold == some (fold label)) = true := by
    rw [h.morphsOf hid hc]
    simpa [Page.morph] using Account.find?_eq_none.mp hfree
  have hadded := h.addPage (v := v) hid hc hlabel hfree
  refine .demand_bind (requireNode_eq_ok.mpr hn) (.get_bind ?_)
  rw [Text.collapse?_of_isTidy (q := some label) fun s hs => Option.some.inj hs ▸ hlabel.tidy]
  simp only [hnot]
  refine Succeeds.bind (P := fun refs g' => refs = [] ∧ g' = g) (.pure ⟨rfl, rfl⟩) fun refs g₀ hstart => ?_
  obtain ⟨rfl, rfl⟩ := hstart
  refine .change_bind (createMorph_eq hn rfl) ?_
  refine Succeeds.bind (P := fun _ g' => g' = _) (.pure rfl) fun _ g₁ hg₁ => ?_
  refine Succeeds.bind (P := fun _ g' => g' = g₁.modifyNode id Node.bump) (.modify rfl) fun _ g₂ hg₂ => .pure ?_
  subst hg₁ hg₂
  rw [Account.withMorph_node _ _ _ label]
  exact ⟨rfl, hadded.modifyNode_bump id, rfl⟩

theorem fenceMorph {label : Option String} (hid : g.names.byName.get? key = some id) (hc : a key = some c)
    (hlabel : ∀ l ∈ label, IsProper l) :
    Succeeds (Graph.fenceMorph id label) g fun k g' => k = .ofNode id (c.turnTo label).1 ∧
      g'.Keeps schema (Function.update a key (some (c.turnTo label).2)) ∧ g'.names = g.names := by
  have hsame : Function.update a key (some c) = a := by rw [← hc, Function.update_eq_self]
  refine .get_bind ?_
  cases label with
  | none =>
    rw [h.morphNamed_none hid hc]
    refine .pure ⟨rfl, ?_, rfl⟩
    rw [Account.turnTo, hsame]
    exact h
  | some label =>
    rw [h.morphNamed hid hc]
    cases hfind : c.find? label with
    | some i =>
      rw [Account.turnTo_found hfind]
      refine .pure ⟨rfl, ?_, rfl⟩
      rw [hsame]
      exact h
    | none =>
      rw [Account.turnTo_added hfind]
      exact h.addMorph hid hc (hlabel label rfl) hfind

end Keeps

structure InBlock (schema : Schema) (key : NameKey) (id : NodeId) (g : Graph) (a : Ledger) : Prop where
  keeps : g.Keeps schema a
  named : g.names.byName.get? key = some id

theorem InBlock.applyFence (hw : schema.Wordy) (h : InBlock schema key id g a) (label : String) {f : Fence}
    (hf : f.Proper) :
    InBlock schema key id (Graph.applyFence schema label id f g).2 (a.applySaying schema key f.saying) ∧
      ((∀ x ∈ f.statements, (schema.entry? x.2).isSome) →
        (Graph.applyFence schema label id f g).1.errorCount = 0) := by
  obtain ⟨c, v, hc, hn⟩ := h.keeps.node h.named
  obtain ⟨k, g₁, hrun, rfl, h₁, hnames⟩ := h.keeps.fenceMorph h.named hc hf.label
  have hpage : OnPage schema key id (c.turnTo f.label).1 g₁
      (Function.update a key (some (c.turnTo f.label).2)) := by
    refine ⟨h₁, by rw [hnames, h.named], _, Function.update_self .., ?_⟩
    exact ((h.keeps.sound.account hc).2.turnTo hf.label).1
  have heach := applyEach_refines (p := fun x : Nat × Statement => (schema.entry? x.2).isSome)
    (fun x hx g₂ a₂ (h₂ : OnPage schema key id _ g₂ a₂) => h₂.applyStatement hw label (hf.statements x hx)) hpage
  rw [Ledger.applySaying_eq hc, Graph.applyFence, hrun]
  simp only [Fence.saying, List.foldl_map]
  exact ⟨⟨heach.1.keeps, heach.1.named⟩, heach.2⟩

namespace Keeps

variable (h : g.Keeps schema a)

include h

theorem applyBlock (hw : schema.Wordy) {b : Block} (hb : b.Proper) :
    (Graph.applyBlock schema b g).2.Keeps schema (a.applyPassage schema b.passage) ∧
      (schema.Accepts b → (Graph.applyBlock schema b g).1.errorCount = 0) := by
  obtain ⟨h₁, hid, -⟩ := h.resolve hb.name hb.qualifier
  have heach (label : String) := applyEach_refines
    (p := fun f : Fence => ∀ x ∈ f.statements, (schema.entry? x.2).isSome)
    (fun f hf g₂ a₂ (h₂ : InBlock schema _ _ g₂ a₂) => h₂.applyFence hw label (hb.fences f hf)) ⟨h₁, hid⟩
  unfold Graph.applyBlock
  simp only [Ledger.applyPassage, Block.passage, List.foldl_map]
  refine ⟨(heach _).1.keeps, fun ⟨herrors, hgood⟩ => ?_⟩
  rw [Report.errorCount_append, (heach _).2 hgood, herrors]
  rfl

theorem applyDocument (hw : schema.Wordy) {d : Document} (hd : ∀ b ∈ d.blocks, b.Proper) :
    (Graph.applyDocument schema d g).2.Keeps schema
        ((d.blocks.map Block.passage).foldl (Ledger.applyPassage schema) a) ∧
      ((∀ b ∈ d.blocks, schema.Accepts b) → (Graph.applyDocument schema d g).1.errorCount = 0) := by
  have heach := applyEach_refines (p := schema.Accepts) (I := fun g a => g.Keeps schema a)
    (f := fun a b => a.applyPassage schema b.passage) (fun b hb g₁ a₁ h₁ => h₁.applyBlock hw (hd b hb)) h
  rw [List.foldl_map]
  exact heach

end Keeps

end Graph

end Morphology
