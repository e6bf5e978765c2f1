import Morphology.Proofs.Application.Addition
import Morphology.Proofs.Application.Repetition

/-! Documents about different nodes, in either order. Where every name that a document mentions is known, what it does
is settled by the names, the types of nodes and the nodes that it heads: in two graphs that agree on these it is
reported alike, and leaves them in agreement. Another document that heads other nodes touches none of these. -/

namespace Morphology

/-- A name and a qualifier. -/
abbrev Mention : Type := String × Option String

def Statement.mentions : Statement → List Mention
  | .relation s => [(s.targetName, s.targetQualifier)]
  | .attr _ => []

def Fence.mentions (f : Fence) : List Mention := f.statements.flatMap (·.2.mentions)

def Block.mentions (b : Block) : List Mention := (b.name, b.qualifier) :: b.fences.flatMap Fence.mentions

/-- The nodes that a document names, in headers and as targets. -/
def Document.mentions (d : Document) : List Mention := d.blocks.flatMap Block.mentions

def NameBook.Knows (book : NameBook) (ms : List Mention) : Prop :=
  ∀ m ∈ ms, ∃ id, book.byName.get? (.ofName m.1 m.2) = some id

theorem NameBook.Knows.target {book : NameBook} {s : RelationStatement}
    (h : book.Knows (Statement.relation s).mentions) :
    ∃ id, book.byName.get? (.ofName s.targetName s.targetQualifier) = some id :=
  h (s.targetName, s.targetQualifier) List.mem_cons_self

theorem applyEach_congr {α : Type} {step : α → Graph → Report × Graph} {items : List α} {R : Graph → Graph → Prop}
    (hstep : ∀ item ∈ items, ∀ g g', R g g' → (step item g').1 = (step item g).1 ∧ R (step item g).2 (step item g').2)
    {g g' : Graph} (h : R g g') :
    (applyEach step items g').1 = (applyEach step items g).1 ∧
      R (applyEach step items g).2 (applyEach step items g').2 := by
  induction items generalizing g g' with
  | nil => exact ⟨rfl, h⟩
  | cons item items ih =>
    obtain ⟨hitem, hitems⟩ := List.forall_mem_cons.mp hstep
    obtain ⟨hreport, hnext⟩ := hitem g g' h
    obtain ⟨hreports, hlast⟩ := ih hitems hnext
    exact ⟨congrArg₂ (· ++ ·) hreport hreports, hlast⟩

namespace Graph

open Edit Grounding

/-- Graphs with the same names and types of nodes that agree on some nodes. -/
structure Alike (on : NodeId → Prop) (book : NameBook) (g g' : Graph) : Prop where
  left : g.Sound
  right : g'.Sound
  names : g.names = book
  names' : g'.names = book
  typed : ∀ o, nodeTypeOf g' o = nodeTypeOf g o
  agree : Agree on g g'

variable {on : NodeId → Prop} {book : NameBook} {g g' : Graph} {o : NodeId} {k : MorphId} {n : Node}
  {label : Option String}

/-- A name that is known makes nothing. -/
theorem Framed.targetOf_known (h : g.Framed) {s : RelationStatement} {id : NodeId}
    (hk : g.names.byName.get? (.ofName s.targetName s.targetQualifier) = some id) : targetOf g s = .resolved id := by
  obtain ⟨n, hlookup, -, hid⟩ := h.lookup_known hk
  rw [targetOf, hlookup, ← hid]

theorem Framed.roomFor_known (h : g.Framed) (schema : Schema) {line : Nat × Statement}
    (hk : g.names.Knows line.2.mentions) : roomFor schema o line g = g := by
  unfold roomFor
  obtain ⟨s, name, modifiers, hs, hedge⟩ | ⟨a, -, hedge⟩ := edge_ofStatement schema o line
  · rw [hs] at hk
    obtain ⟨id, hk⟩ := hk.target
    rw [hedge, GroundedEdge.room, h.resolveTarget_targetOf, resolve_known hk]
  · rw [hedge]
    rfl

namespace Agree

variable (h : Agree on g g') (hf : g.Framed) (ho : on o)

include h hf ho

theorem morphs_eq (hn : g.nodes.get? o = some n) (hk : k ∈ n.morphs) : g'.morphs.get? k = g.morphs.get? k := by
  obtain ⟨m, hm, rfl⟩ := hf.present hn hk
  rw [hm]
  exact (h.morph_iff ho).mpr hm

theorem morphNamed_eq : g'.morphNamed o label = g.morphNamed o label := by
  unfold morphNamed
  rw [h.nodes o ho]
  cases hn : g.nodes.get? o with
  | none => rfl
  | some n =>
    have hmorphs : ∀ k ∈ n.morphs, g'.morphs.get? k = g.morphs.get? k := fun k hk => h.morphs_eq hf ho hn hk
    cases label with
    | none =>
      obtain ⟨-, hnum⟩ := hf.node hn
      exact hmorphs _ (hnum.basicMorph_eq ▸ List.mem_of_mem_head? hnum.basic)
    | some name =>
      have hrecords : g'.morphsOf n = g.morphsOf n := List.filterMap_congr hmorphs
      simp only [hrecords]

end Agree

namespace Alike

variable (h : Alike on book g g')

include h

theorem grow {g₁ g₁' : Graph} (hs : g₁.Sound) (hs' : g₁'.Sound) (hn : g₁.names = g.names) (hn' : g₁'.names = g'.names)
    (hg : g.Grown g₁) (hg' : g'.Grown g₁') (ha : Agree on g₁ g₁') : Alike on book g₁ g₁' where
  left := hs
  right := hs'
  names := hn.trans h.names
  names' := hn'.trans h.names'
  typed o := (hg'.typed o).trans ((h.typed o).trans (hg.typed o).symm)
  agree := ha

theorem resolve_eq {name : String} {qualifier : Option String} {id : NodeId}
    (hk : book.byName.get? (.ofName name qualifier) = some id) :
    g.resolve name qualifier = (id, g) ∧ g'.resolve name qualifier = (id, g') :=
  ⟨resolve_known (h.names.symm ▸ hk), resolve_known (h.names'.symm ▸ hk)⟩

variable (schema : Schema)

section Statement

variable {line : Nat × Statement} (hk : book.Knows line.2.mentions)

include hk

theorem ofStatement_eq (o : NodeId) :
    ofStatement schema g' o line.2 line.1 = ofStatement schema g o line.2 line.1 := by
  obtain ⟨i, s⟩ := line
  cases s with
  | attr s => rfl
  | relation s =>
    obtain ⟨id, hk⟩ := hk.target
    have htarget := h.left.framed.targetOf_known (h.names.symm ▸ hk)
    have htarget' := h.right.framed.targetOf_known (h.names'.symm ▸ hk)
    simp only [ofStatement, ofRelation, htarget, htarget', targetType, h.typed]

theorem recordFor_eq (o : NodeId) : recordFor schema o line g' = recordFor schema o line g := by
  unfold recordFor
  obtain ⟨s, name, modifiers, hs, hedge⟩ | ⟨a, -, hedge⟩ := edge_ofStatement schema o line
  · rw [hs] at hk
    obtain ⟨id, hk⟩ := hk.target
    obtain ⟨hresolve, hresolve'⟩ := h.resolve_eq hk
    simp only [hedge, GroundedEdge.record, h.left.framed.resolveTarget_targetOf,
      h.right.framed.resolveTarget_targetOf, hresolve, hresolve']
  · simp only [hedge, GroundedEdge.record]

theorem applyStatement (label : String) (ho : on o) (howns : g.Owns o k) :
    (applyStatement schema label o k line g').1 = (applyStatement schema label o k line g).1 ∧
      Alike on book (applyStatement schema label o k line g).2 (applyStatement schema label o k line g').2 := by
  have hs := (outlastsDocuments_sound schema).applyStatement h.left label o k line
  have hs' := (outlastsDocuments_sound schema).applyStatement h.right label o k line
  have howns' := h.agree.owns ho howns
  obtain ⟨howner, hc, hends⟩ := h.left.framed.recordFor_spec schema line (h.left.framed.contains_of_owns howns)
  obtain ⟨-, -, hends'⟩ := h.right.framed.recordFor_spec schema line (h.right.framed.contains_of_owns howns')
  have hroom : roomFor schema o line g = g := h.left.framed.roomFor_known schema (h.names.symm ▸ hk)
  have hroom' : roomFor schema o line g' = g' := h.right.framed.roomFor_known schema (h.names'.symm ▸ hk)
  rw [hroom] at hends
  rw [hroom', h.recordFor_eq schema hk] at hends'
  have hthere := h.left.hasEdge_congr h.right.toCoherent h.agree hc hends hends' (howner.symm ▸ ho)
  rw [h.left.framed.applyStatement_eq schema line howns label, hroom] at hs ⊢
  rw [h.right.framed.applyStatement_eq schema line howns' label, h.ofStatement_eq schema hk, h.recordFor_eq schema hk,
    hroom', hthere] at hs' ⊢
  split
  · rename_i hfits
    rw [if_pos hfits] at hs hs'
    exact ⟨rfl, h.grow hs hs' (names_upserted _ _ _) (names_upserted _ _ _) (grown_upserted _ _ _)
      (grown_upserted _ _ _) (h.agree.upserted (howner.symm ▸ ho) (howner.symm ▸ howns))⟩
  · exact ⟨rfl, h⟩

end Statement

section Fence

variable (ho : on o) (hthere : g.nodes.contains o = true)

include ho hthere

/-- A fence is about the same morph in both graphs, be it there or new. -/
theorem fenceMorph (hlabel : Text.collapse? label = label) : ∃ k g₁ g₁', fenceMorph o label g = .ok k g₁ ∧
    fenceMorph o label g' = .ok k g₁' ∧ g₁.Owns o k ∧ Alike on book g₁ g₁' := by
  have hs := h.left.leaves_fenceMorph o label
  have hs' := h.right.leaves_fenceMorph o label
  obtain ⟨n, hn⟩ := Table.contains_iff.mp hthere
  have hn' : g'.nodes.get? o = some n := (h.agree.nodes o ho).trans hn
  have hsame : g'.morphNamed o label = g.morphNamed o label := h.agree.morphNamed_eq h.left.framed ho
  obtain ⟨rfl, -⟩ := h.left.framed.node hn
  unfold Leaves at hs hs'
  rcases h.left.framed.fenceMorph_cases hn hlabel with ⟨m, hm, hrun⟩ | ⟨name, hname, hfree, hrun⟩
  · exact ⟨m.id, g, g', hrun, fenceMorph_named (hsame.trans hm), ⟨m, h.left.framed.morphNamed_present hm⟩, h⟩
  · rcases h.right.framed.fenceMorph_cases hn' hlabel with ⟨m, hm, -⟩ | ⟨name', hname', -, hrun'⟩
    · rw [hsame, hfree] at hm
      cases hm
    · rw [hname] at hname'
      cases hname'
      rw [hrun] at hs
      rw [hrun'] at hs'
      obtain ⟨m, hm, hid⟩ := h.left.framed.morphNamed_withNamed hn (hname ▸ hfree)
      obtain ⟨hframed, hgrown⟩ := h.left.framed.withNamed hn name
      obtain ⟨-, hgrown'⟩ := h.right.framed.withNamed hn' name
      exact ⟨_, _, _, hrun, hrun', ⟨m, hid ▸ hframed.morphNamed_present hm⟩,
        h.grow hs hs' rfl rfl hgrown hgrown' (h.agree.withMorph.modifyNode n.id Node.bump)⟩

theorem applyFence (label : String) {fence : Fence} (hlabel : Text.collapse? fence.label = fence.label)
    (hk : book.Knows fence.mentions) :
    (applyFence schema label o fence g').1 = (applyFence schema label o fence g).1 ∧
      Alike on book (applyFence schema label o fence g).2 (applyFence schema label o fence g').2 := by
  obtain ⟨k, g₁, g₁', hrun, hrun', howns, h₁⟩ := h.fenceMorph ho hthere hlabel
  let step := Graph.applyStatement schema label o k
  have hstatement : ∀ line ∈ fence.statements, ∀ g g', Alike on book g g' ∧ g.Owns o k →
      (step line g').1 = (step line g).1 ∧ Alike on book (step line g).2 (step line g').2 ∧
        (step line g).2.Owns o k := by
    intro line hline g g' ⟨h, howns⟩
    have hknown : book.Knows line.2.mentions := fun m hm => hk m (List.mem_flatMap.mpr ⟨line, hline, hm⟩)
    obtain ⟨hreport, halike⟩ := h.applyStatement schema hknown label ho howns
    exact ⟨hreport, halike, (settles_applyStatement schema h.left.framed label howns line).grown.owns howns⟩
  have heach := applyEach_congr (R := fun g g' => Alike on book g g' ∧ g.Owns o k) hstatement ⟨h₁, howns⟩
  simp only [Graph.applyFence, hrun, hrun']
  exact ⟨heach.1, heach.2.1⟩

end Fence

theorem applyBlock {block : Block} (hlabels : ∀ f ∈ block.fences, Text.collapse? f.label = f.label)
    (hk : book.Knows block.mentions)
    (hhead : ∀ o, book.byName.get? (.ofName block.name block.qualifier) = some o → on o) :
    (applyBlock schema block g').1 = (applyBlock schema block g).1 ∧
      Alike on book (applyBlock schema block g).2 (applyBlock schema block g').2 := by
  obtain ⟨o, ho⟩ := hk (block.name, block.qualifier) List.mem_cons_self
  obtain ⟨hresolve, hresolve'⟩ := h.resolve_eq ho
  obtain ⟨n, hid, hn, happly⟩ := h.left.framed.applyBlock_eq schema block
  obtain ⟨n', hid', hn', happly'⟩ := h.right.framed.applyBlock_eq schema block
  rw [hresolve] at hid hn happly
  rw [hresolve'] at hid' hn' happly'
  obtain rfl : o = n.id := hid
  -- The header names the same node in both graphs.
  have hsame : n' = n := by
    have hboth := (h.agree.nodes _ (hhead _ ho)).trans hn
    rw [show n.id = n'.id from hid', hn'] at hboth
    exact Option.some.inj hboth
  subst hsame
  let step := Graph.applyFence schema n'.displayName n'.id
  have hfence : ∀ f ∈ block.fences, ∀ g g', Alike on book g g' ∧ g.nodes.contains n'.id = true →
      (step f g').1 = (step f g).1 ∧ Alike on book (step f g).2 (step f g').2 ∧
        (step f g).2.nodes.contains n'.id = true := by
    intro f hf g g' ⟨h, hthere⟩
    have hknown : book.Knows f.mentions :=
      fun m hm => hk m (List.mem_cons_of_mem _ (List.mem_flatMap.mpr ⟨f, hf, hm⟩))
    obtain ⟨hreport, halike⟩ := h.applyFence schema (hhead _ ho) hthere n'.displayName (hlabels f hf) hknown
    exact ⟨hreport, halike,
      (settles_applyFence schema h.left.framed n'.displayName hthere (hlabels f hf)).grown.contains_node hthere⟩
  have heach := applyEach_congr (R := fun g g' => Alike on book g g' ∧ g.nodes.contains n'.id = true) hfence
    ⟨h, Table.contains_iff.mpr ⟨n', hn⟩⟩
  rw [happly, happly']
  exact ⟨congrArg (({ unread := block.errors } : Report) ++ ·) heach.1, heach.2.1⟩

theorem applyDocument {d : Document} (hlabels : ∀ b ∈ d.blocks, ∀ f ∈ b.fences, Text.collapse? f.label = f.label)
    (hk : book.Knows d.mentions)
    (hheads : ∀ b ∈ d.blocks, ∀ o, book.byName.get? (.ofName b.name b.qualifier) = some o → on o) :
    (applyDocument schema d g').1 = (applyDocument schema d g).1 ∧
      Alike on book (applyDocument schema d g).2 (applyDocument schema d g').2 :=
  applyEach_congr (fun b hb _ _ h => h.applyBlock schema (hlabels b hb)
    (fun m hm => hk m (List.mem_flatMap.mpr ⟨b, hb, hm⟩)) (hheads b hb)) h

end Alike

/-! ## Two documents -/

theorem Framed.heads_iff (h : g.Framed) {d : Document} :
    g.Heads d o ↔ ∃ b ∈ d.blocks, g.names.byName.get? (.ofName b.name b.qualifier) = some o := by
  refine exists_congr fun b => and_congr_right fun _ => ⟨?_, fun hk => ?_⟩
  · rintro ⟨n, hlookup, rfl⟩
    exact (h.lookup_eq_some.mp hlookup).1
  · obtain ⟨n, hlookup, -, hid⟩ := h.lookup_known hk
    exact ⟨n, hlookup, hid⟩

theorem Framed.contains_of_heads (h : g.Framed) {d : Document} (hd : g.Heads d o) : g.nodes.contains o = true := by
  obtain ⟨b, -, n, hlookup, rfl⟩ := hd
  exact Table.contains_iff.mpr ⟨n, (h.lookup_eq_some.mp hlookup).2⟩

/-- What a document about known nodes leaves as it was. -/
structure Spared (d : Document) (g g' : Graph) : Prop where
  names : g'.names = g.names
  typed : ∀ o, nodeTypeOf g' o = nodeTypeOf g o
  transitions : g'.transitions = g.transitions
  unheaded : Agree (fun o => g.nodes.contains o = true ∧ ¬g.Heads d o) g g'

section Pair

variable (schema : Schema) (h : g.Sound) {d : Document}
  (hlabels : ∀ b ∈ d.blocks, ∀ f ∈ b.fences, Text.collapse? f.label = f.label) (hk : g.names.Knows d.mentions)

include h hlabels hk

theorem Sound.spared_applyDocument : Spared d g (applyDocument schema d g).2 := by
  have hself : Alike (fun _ => True) g.names g g := ⟨h, h, rfl, rfl, fun _ => rfl, .refl _ g⟩
  obtain ⟨-, halike⟩ := hself.applyDocument schema hlabels hk fun _ _ _ _ => trivial
  have hadded := h.added_applyDocument schema hlabels
  refine ⟨halike.names, (settles_applyDocument schema h.framed hlabels).grown.typed, hadded.transitions, ?_⟩
  exact hadded.elsewhere.mono fun o ⟨ho, hunheaded⟩ hsite => hunheaded (hsite ho)

/-- Where other nodes have been written to, a document is reported as it would have been before. -/
theorem Sound.applyDocument_after {d₀ : Document} {g₀ : Graph} (h₀ : g₀.Sound) (hspared : Spared d₀ g g₀)
    (hd : ∀ o, g.Heads d o → ¬g.Heads d₀ o) :
    (applyDocument schema d g₀).1 = (applyDocument schema d g).1 ∧
      Agree (g.Heads d) (applyDocument schema d g).2 (applyDocument schema d g₀).2 := by
  have halike : Alike (g.Heads d) g.names g g₀ := {
    left := h
    right := h₀
    names := rfl
    names' := hspared.names
    typed := hspared.typed
    agree := hspared.unheaded.mono fun o ho => ⟨h.framed.contains_of_heads ho, hd o ho⟩ }
  obtain ⟨hreport, halike'⟩ := halike.applyDocument schema hlabels hk fun b hb o ho => h.framed.heads_iff.mpr ⟨b, hb, ho⟩
  exact ⟨hreport, halike'.agree⟩

end Pair

theorem Agree.of_each (h : ∀ o, Agree (· = o) g g') : Agree on g g' :=
  ⟨fun o _ => (h o).nodes o rfl, fun o _ => (h o).holdings o rfl⟩

theorem Agree.single (h : Agree on g g') (ho : on o) : Agree (· = o) g g' := h.mono fun _ ho' => ho' ▸ ho

theorem Coherent.agree_of_missing (h : g.Coherent) (h' : g'.Coherent) (hn : g.nodes.get? o = none)
    (hn' : g'.nodes.get? o = none) : Agree (· = o) g g' where
  nodes := by
    rintro _ rfl
    rw [hn, hn']
  holdings := by
    rintro _ rfl
    rw [h.holding_of_missing hn, h'.holding_of_missing hn']

namespace Spared

variable {d d' : Document} (hs : Spared d g g') (h : g.Framed) (h' : g'.Framed)

include hs h h'

theorem heads_iff : g'.Heads d' o ↔ g.Heads d' o := by
  rw [h'.heads_iff, h.heads_iff, hs.names]

theorem contains_eq : g'.nodes.contains o = g.nodes.contains o := by
  rw [Bool.eq_iff_iff, ← h'.taken, ← h.taken, hs.names]

/-- What the next document does not head, it spares as well. -/
theorem later (hs' : Spared d' g' g'') (ho : g.nodes.contains o = true) (hunheaded : ¬g.Heads d' o) :
    Agree (· = o) g' g'' := by
  refine hs'.unheaded.single ⟨?_, fun hd => hunheaded ((hs.heads_iff h h').mp hd)⟩
  rw [hs.contains_eq h h', ho]

end Spared

/-- Two documents that head different nodes do the same in either order. -/
theorem Sound.applyDocument_comm (h : g.Sound) (schema : Schema) {d₁ d₂ : Document}
    (hl₁ : ∀ b ∈ d₁.blocks, ∀ f ∈ b.fences, Text.collapse? f.label = f.label)
    (hl₂ : ∀ b ∈ d₂.blocks, ∀ f ∈ b.fences, Text.collapse? f.label = f.label)
    (hk₁ : g.names.Knows d₁.mentions) (hk₂ : g.names.Knows d₂.mentions) (hd : ∀ o, g.Heads d₁ o → ¬g.Heads d₂ o) :
    let g₁ := (applyDocument schema d₁ g).2
    let g₂ := (applyDocument schema d₂ g).2
    (applyDocument schema d₂ g₁).2 = (applyDocument schema d₁ g₂).2 ∧
      (applyDocument schema d₂ g₁).1 = (applyDocument schema d₂ g).1 ∧
      (applyDocument schema d₁ g₂).1 = (applyDocument schema d₁ g).1 := by
  intro g₁ g₂
  have hsound := outlastsDocuments_sound schema
  have h₁ : g₁.Sound := hsound.applyDocument h d₁
  have h₂ : g₂.Sound := hsound.applyDocument h d₂
  have h₁₂ := hsound.applyDocument h₁ d₂
  have h₂₁ := hsound.applyDocument h₂ d₁
  have hs₁ : Spared d₁ g g₁ := h.spared_applyDocument schema hl₁ hk₁
  have hs₂ : Spared d₂ g g₂ := h.spared_applyDocument schema hl₂ hk₂
  have hs₁₂ := h₁.spared_applyDocument schema hl₂ (hs₁.names.symm ▸ hk₂)
  have hs₂₁ := h₂.spared_applyDocument schema hl₁ (hs₂.names.symm ▸ hk₁)
  obtain ⟨hreport₂, ha₂⟩ := h.applyDocument_after schema hl₂ hk₂ h₁ hs₁ fun o ho₂ ho₁ => hd o ho₁ ho₂
  obtain ⟨hreport₁, ha₁⟩ := h.applyDocument_after schema hl₁ hk₁ h₂ hs₂ hd
  refine ⟨h₂₁.ext h₁₂.toCoherent (.of_each fun o => ?_) ?_ ?_, hreport₂, hreport₁⟩
  · cases ho : g.nodes.contains o with
    | false =>
      have hmissing₁₂ := (hs₁₂.contains_eq h₁.framed h₁₂.framed).trans ((hs₁.contains_eq h.framed h₁.framed).trans ho)
      have hmissing₂₁ := (hs₂₁.contains_eq h₂.framed h₂₁.framed).trans ((hs₂.contains_eq h.framed h₂.framed).trans ho)
      exact h₂₁.agree_of_missing h₁₂.toCoherent (Table.contains_eq_false.mp hmissing₂₁)
        (Table.contains_eq_false.mp hmissing₁₂)
    | true =>
      have hspared₁ (hunheaded : ¬g.Heads d₂ o) := hs₁.later h.framed h₁.framed hs₁₂ ho hunheaded
      have hspared₂ (hunheaded : ¬g.Heads d₁ o) := hs₂.later h.framed h₂.framed hs₂₁ ho hunheaded
      by_cases ho₁ : g.Heads d₁ o
      · exact (ha₁.single ho₁).symm.trans (hspared₁ (hd o ho₁))
      · by_cases ho₂ : g.Heads d₂ o
        · exact (hspared₂ ho₁).symm.trans (ha₂.single ho₂)
        · have hfirst : Agree (· = o) g₂ g₁ := (hs₂.unheaded.single ⟨ho, ho₂⟩).symm.trans (hs₁.unheaded.single ⟨ho, ho₁⟩)
          exact ((hspared₂ ho₁).symm.trans hfirst).trans (hspared₁ ho₂)
  · rw [hs₁₂.names, hs₁.names, hs₂₁.names, hs₂.names]
  · rw [hs₁₂.transitions, hs₁.transitions, hs₂₁.transitions, hs₂.transitions]

end Graph

namespace Session

/-- Texts about different nodes that are all there commute. -/
theorem apply_comm {s : Session} (h : s.Reachable) {text₁ text₂ : String}
    (hk₁ : ∀ m ∈ (Document.parse text₁).mentions, ∃ n, s.graph.lookup m.1 m.2 = some n)
    (hk₂ : ∀ m ∈ (Document.parse text₂).mentions, ∃ n, s.graph.lookup m.1 m.2 = some n)
    (hd : ∀ o, s.graph.Heads (Document.parse text₁) o → ¬s.graph.Heads (Document.parse text₂) o) :
    ((s.apply text₁).2.apply text₂).2 = ((s.apply text₂).2.apply text₁).2 ∧
      ((s.apply text₁).2.apply text₂).1 = (s.apply text₂).1 ∧
      ((s.apply text₂).2.apply text₁).1 = (s.apply text₁).1 := by
  have hknows {ms : List Mention} (hms : ∀ m ∈ ms, ∃ n, s.graph.lookup m.1 m.2 = some n) :
      s.graph.names.Knows ms :=
    fun m hm => (hms m hm).imp' Node.id fun n hn => (h.sound.framed.lookup_eq_some.mp hn).1
  obtain ⟨hgraph, hreport₂, hreport₁⟩ := h.sound.applyDocument_comm s.schema (Document.label_of_parse text₁)
    (Document.label_of_parse text₂) (hknows hk₁) (hknows hk₂) hd
  refine ⟨?_, hreport₂, hreport₁⟩
  exact congrArg (fun g => { s with graph := g }) hgraph

def crowMeal : String := "# Crow\n:::cnl young\n<eats> worm\n:::\n"

def wormFeast : String := "# Worm\n:::cnl\n<eats> crow\n<eats> worm\n<hates> crow\n:::\n"

/-- It is the same whether the young crow eats first or the worm. -/
theorem apply_comm_meadow :
    meadow.Reachable ∧ ((meadow.apply crowMeal).1.created, (meadow.apply wormFeast).1.created,
      (meadow.apply wormFeast).1.errorLines) = (0, 2, [5]) ∧
      ((meadow.apply crowMeal).2.apply wormFeast).2 = ((meadow.apply wormFeast).2.apply crowMeal).2 ∧
      ((meadow.apply crowMeal).2.apply wormFeast).1 = (meadow.apply wormFeast).1 ∧
      ((meadow.apply wormFeast).2.apply crowMeal).1 = (meadow.apply crowMeal).1 := by
  have hfacts : ((meadow.apply crowMeal).1.created, (meadow.apply wormFeast).1.created,
        (meadow.apply wormFeast).1.errorLines) = (0, 2, [5]) ∧
      (∀ m ∈ (Document.parse crowMeal).mentions ++ (Document.parse wormFeast).mentions,
        (meadow.graph.lookup m.1 m.2).isSome = true) ∧
      ∀ b ∈ (Document.parse crowMeal).blocks, ∀ b' ∈ (Document.parse wormFeast).blocks,
        (meadow.graph.lookup b.name b.qualifier).map (·.id) ≠
          (meadow.graph.lookup b'.name b'.qualifier).map (·.id) := by decide +kernel
  obtain ⟨hreports, hknown, hheads⟩ := hfacts
  refine ⟨reachable_meadow, hreports, apply_comm reachable_meadow (fun m hm => ?_) (fun m hm => ?_) fun o ho₁ ho₂ => ?_⟩
  · exact Option.isSome_iff_exists.mp (hknown m (List.mem_append_left _ hm))
  · exact Option.isSome_iff_exists.mp (hknown m (List.mem_append_right _ hm))
  · obtain ⟨b, hb, n, hn, rfl⟩ := ho₁
    obtain ⟨b', hb', n', hn', hid⟩ := ho₂
    refine hheads b hb b' hb' ?_
    rw [hn, hn', Option.map_some, Option.map_some, hid]

end Session

end Morphology
