import Morphology.Proofs.Application.Writing
import Morphology.Proofs.Document.Reading
import Morphology.Proofs.Graph.Agreement
import Morphology.Proofs.Session.Transitions

/-! What documents add. They make nodes and morphs, write edges, and put references at the end of lists; whatever was
there is there afterwards. All of this happens at the nodes that a document heads and at those that it makes: the others
are left as they were, though edges may lead to them. -/

namespace Morphology

/-- What nothing that is added to a node changes. -/
def Node.bare (n : Node) : Node := { n with morphs := [], version := 0, nextMorph := 0 }

structure Node.Added (n n' : Node) : Prop where
  bare : n'.bare = n.bare
  morphs : n.morphs <+: n'.morphs
  version : n.version ≤ n'.version

theorem Node.Added.refl (n : Node) : n.Added n := ⟨rfl, List.prefix_rfl, le_rfl⟩

theorem Node.Added.trans {n n' n'' : Node} (h : n.Added n') (h' : n'.Added n'') : n.Added n'' :=
  ⟨h'.bare.trans h.bare, h.morphs.trans h'.morphs, h.version.trans h'.version⟩

theorem Node.added_bump (n : Node) : n.Added n.bump := ⟨rfl, List.prefix_rfl, Nat.le_succ n.version⟩

theorem Node.added_withMorph (n : Node) : n.Added n.withMorph := ⟨rfl, List.prefix_append _ _, le_rfl⟩

structure Morph.Added (m m' : Morph) : Prop where
  bare : m'.bare = m.bare
  relations : m.relations <+: m'.relations
  attributes : m.attributes <+: m'.attributes

theorem Morph.Added.refl (m : Morph) : m.Added m := ⟨rfl, List.prefix_rfl, List.prefix_rfl⟩

theorem Morph.Added.trans {m m' m'' : Morph} (h : m.Added m') (h' : m'.Added m'') : m.Added m'' :=
  ⟨h'.bare.trans h.bare, h.relations.trans h'.relations, h.attributes.trans h'.attributes⟩

theorem Morph.added_insert (m : Morph) (e : EdgeRef) : m.Added (m.insert e) := by
  refine ⟨m.bare_insert e, ?_, ?_⟩
  all_goals
    unfold insert
    split
    · exact List.prefix_rfl
    · cases e
      · simp
      · simp

namespace Graph

/-- A header of the document is a name of the node. -/
def Heads (g : Graph) (d : Document) (o : NodeId) : Prop :=
  ∃ b ∈ d.blocks, ∃ n, g.lookup b.name b.qualifier = some n ∧ n.id = o

/-- Nothing but additions, and none but at some nodes. -/
structure Added (sites : NodeId → Prop) (g g' : Graph) : Prop where
  nodes : ∀ {o n}, g.nodes.get? o = some n → ∃ n', g'.nodes.get? o = some n' ∧ n.Added n'
  morphs : ∀ {k m}, g.morphs.get? k = some m → ∃ m', g'.morphs.get? k = some m' ∧ m.Added m'
  edges : ∀ {e w}, g.record? e = some w → ∃ w', g'.record? e = some w' ∧ w'.subject = w.subject
  transitions : g'.transitions = g.transitions
  /-- A name that is new stands for a node that is new. -/
  named : ∀ {key o}, g'.names.byName.get? key = some o → g.names.byName.get? key = some o ∨ g.nodes.get? o = none
  elsewhere : Agree (¬sites ·) g g'

variable {sites : NodeId → Prop} {g g' g'' : Graph} {o : NodeId} {k l : MorphId} {n : Node} {w : EdgeRecord}

namespace Added

theorem refl (sites : NodeId → Prop) (g : Graph) : Added sites g g where
  nodes {_ n} hn := ⟨n, hn, .refl n⟩
  morphs {_ m} hm := ⟨m, hm, .refl m⟩
  edges {_ w} hw := ⟨w, hw, rfl⟩
  transitions := rfl
  named := Or.inl
  elsewhere := .refl _ g

variable (h : Added sites g g')

include h

theorem missing (hn : g'.nodes.get? o = none) : g.nodes.get? o = none := by
  refine Option.eq_none_iff_forall_ne_some.mpr fun n hn' => ?_
  obtain ⟨n', hn'', -⟩ := h.nodes hn'
  rw [hn] at hn''
  cases hn''

theorem trans (h' : Added sites g' g'') : Added sites g g'' where
  nodes hn := by
    obtain ⟨n', hn', ha⟩ := h.nodes hn
    obtain ⟨n'', hn'', ha'⟩ := h'.nodes hn'
    exact ⟨n'', hn'', ha.trans ha'⟩
  morphs hm := by
    obtain ⟨m', hm', ha⟩ := h.morphs hm
    obtain ⟨m'', hm'', ha'⟩ := h'.morphs hm'
    exact ⟨m'', hm'', ha.trans ha'⟩
  edges hw := by
    obtain ⟨w', hw', hs⟩ := h.edges hw
    obtain ⟨w'', hw'', hs'⟩ := h'.edges hw'
    exact ⟨w'', hw'', hs'.trans hs⟩
  transitions := h'.transitions.trans h.transitions
  named hk := (h'.named hk).elim h.named fun hnew => Or.inr (h.missing hnew)
  elsewhere := h.elsewhere.trans h'.elsewhere

theorem contains (ho : g.nodes.contains o = true) : g'.nodes.contains o = true := by
  obtain ⟨n, hn⟩ := Table.contains_iff.mp ho
  obtain ⟨n', hn', -⟩ := h.nodes hn
  exact Table.contains_iff.mpr ⟨n', hn'⟩

theorem owns (hk : g.Owns o k) : g'.Owns o k := by
  obtain ⟨m, hm, rfl⟩ := hk
  obtain ⟨m', hm', ha⟩ := h.morphs hm
  exact ⟨m', hm', (Morph.bare_inj ha.bare).2.2⟩

end Added

/-! ## What is added step by step -/

theorem added_withMorph {book : NameBook} {name : Option String} (hfresh : g.morphs.get? l = none)
    (hkept : ∀ n₀, g.nodes.get? n.id = some n₀ → n₀.Added n)
    (hnamed : ∀ key o, book.byName.get? key = some o → g.names.byName.get? key = some o ∨ g.nodes.get? o = none)
    (hn : sites n.id) : Added sites g (g.withMorph book n l name) where
  nodes {o n₀} hn₀ := by
    rw [nodes_withMorph]
    split
    · rename_i ho
      exact ⟨n, rfl, hkept n₀ (ho ▸ hn₀)⟩
    · exact ⟨n₀, hn₀, .refl n₀⟩
  morphs {k m} hm := by
    have hne : k ≠ l := by
      rintro rfl
      rw [hfresh] at hm
      cases hm
    exact ⟨m, by rw [morphs_withMorph, if_neg hne, hm], .refl m⟩
  edges {e w} hw := ⟨w, record?_withMorph.trans hw, rfl⟩
  transitions := rfl
  named hk := hnamed _ _ hk
  elsewhere := agree_withMorph hfresh (fun n₀ hn₀ => (hkept n₀ hn₀).version) (not_not_intro hn)

theorem added_bump (g : Graph) (ho : sites o) : Added sites g (g.modifyNode o Node.bump) where
  nodes {o' n} hn := by
    rw [nodes_modifyNode]
    split
    · exact ⟨n.bump, by rw [hn, Option.map_some], n.added_bump⟩
    · exact ⟨n, hn, .refl n⟩
  morphs {_ m} hm := ⟨m, hm, .refl m⟩
  edges {e w} hw := ⟨w, by cases e <;> exact hw, rfl⟩
  transitions := rfl
  named := Or.inl
  elsewhere := agree_bump g (not_not_intro ho)

theorem Framed.added_withNode (h : g.Framed) {id : NodeId} (hfree : g.nodes.contains id = false) (name : String)
    (qualifier : Option String) (hid : sites id) : Added sites g (g.withNode id name qualifier) := by
  have hnone : g.nodes.get? id = none := Table.contains_eq_false.mp hfree
  refine added_withMorph (h.fresh_basic hfree) (fun n₀ hn₀ => ?_) (fun key o hk => ?_) hid
  · rw [show g.nodes.get? (Node.new id name qualifier).id = none from hnone] at hn₀
    cases hn₀
  · exact (NameBook.byName_register hk).imp_right fun ⟨ho, _⟩ => ho ▸ hnone

theorem Framed.added_withNamed (h : g.Framed) (hn : g.nodes.get? n.id = some n) (name : String) (ho : sites n.id) :
    Added sites g (g.withNamed n name) := by
  refine (added_withMorph (n := n.withMorph) (h.fresh_morph hn) (fun n₀ hn₀ => ?_) (fun _ _ => Or.inl) ho).trans
    (added_bump _ ho)
  replace hn₀ : g.nodes.get? n.id = some n₀ := hn₀
  rw [hn] at hn₀
  cases hn₀
  exact n.added_withMorph

theorem Coherent.added_upserted (h : g.Coherent) (hk : g.Owns w.owner k) (hc : w.IsComposed)
    (hends : g.HasEnds w.subject) (ho : sites w.owner) : Added sites g (g.upserted k w) where
  nodes {o n} hn := by
    rw [nodes_upserted]
    split
    · exact ⟨n.bump, by rw [hn, Option.map_some], n.added_bump⟩
    · exact ⟨n, hn, .refl n⟩
  morphs {l m} hm := by
    rw [morphs_upserted]
    split
    · exact ⟨m.insert w.ref, by rw [hm, Option.map_some], m.added_insert w.ref⟩
    · exact ⟨m, hm, .refl m⟩
  edges {e v} hv := by
    rw [record?_upserted]
    split
    · rename_i he
      exact ⟨w, rfl, (h.subject_eq (he ▸ hv) hc hends).symm⟩
    · exact ⟨v, hv, rfl⟩
  transitions := by
    rw [upserted]
    refine (transitions_linking _ k w.ref).trans ?_
    cases w <;> rfl
  named hk := Or.inl (names_upserted g _ w ▸ hk)
  elsewhere := h.agree_upserted hk hc hends (not_not_intro ho)

/-! ## Documents -/

section Documents

variable (schema : Schema) (h : g.Sound) (hnew : ∀ o, g.nodes.get? o = none → sites o)

include h hnew

theorem Sound.added_resolve (name : String) (qualifier : Option String) :
    Added sites g (g.resolve name qualifier).2 := by
  refine resolve_induction (.refl sites g) (fun name qualifier => ?_) name qualifier
  have hfree := h.framed.unused_mint name qualifier
  exact h.framed.added_withNode hfree name qualifier (hnew _ (Table.contains_eq_false.mp hfree))

theorem Sound.added_applyStatement (label : String) (ho : sites o) (hk : g.Owns o k) (line : Nat × Statement) :
    Added sites g (applyStatement schema label o k line g).2 := by
  obtain ⟨howner, hc, hends⟩ := h.framed.recordFor_spec schema line (h.framed.contains_of_owns hk)
  have hroom : (roomFor schema o line g).Sound ∧ Added sites g (roomFor schema o line g) := by
    unfold roomFor
    obtain ⟨s, name, modifiers, -, hedge⟩ | ⟨a, -, hedge⟩ := edge_ofStatement schema o line
    · rw [hedge, GroundedEdge.room, h.framed.resolveTarget_targetOf]
      exact ⟨h.resolve _ _, h.added_resolve hnew _ _⟩
    · rw [hedge]
      exact ⟨h, .refl sites g⟩
  rw [h.framed.applyStatement_eq schema line hk label]
  split
  · refine hroom.2.trans (hroom.1.added_upserted ?_ hc hends (howner.symm ▸ ho))
    rw [howner]
    exact hroom.2.owns hk
  · exact .refl sites g

omit hnew in
theorem Sound.added_fenceMorph (ho : sites o) (hthere : g.nodes.contains o = true) {label : Option String}
    (hlabel : Text.collapse? label = label) :
    ∃ k g₁, fenceMorph o label g = .ok k g₁ ∧ g₁.Sound ∧ Added sites g g₁ ∧ g₁.Owns o k := by
  obtain ⟨n, hn⟩ := Table.contains_iff.mp hthere
  obtain ⟨rfl, -⟩ := h.framed.node hn
  have hsound := h.leaves_fenceMorph n.id label
  unfold Leaves at hsound
  rcases h.framed.fenceMorph_cases hn hlabel with ⟨m, hm, hrun⟩ | ⟨name, hname, hfree, hrun⟩
  · exact ⟨m.id, g, hrun, h, .refl sites g, m, h.framed.morphNamed_present hm⟩
  · rw [hrun] at hsound
    obtain ⟨m, hm, hid⟩ := h.framed.morphNamed_withNamed hn (hname ▸ hfree)
    refine ⟨_, _, hrun, hsound, h.framed.added_withNamed hn name ho, ?_⟩
    exact ⟨m, hid ▸ (h.framed.withNamed hn name).1.morphNamed_present hm⟩

theorem Sound.added_applyFence (label : String) (ho : sites o) (hthere : g.nodes.contains o = true) {fence : Fence}
    (hlabel : Text.collapse? fence.label = fence.label) :
    Added sites g (applyFence schema label o fence g).2 := by
  obtain ⟨k, g₁, hrun, h₁, ha₁, hk₁⟩ := h.added_fenceMorph ho hthere hlabel
  have hall : (applyEach (applyStatement schema label o k) fence.statements g₁).2.Sound ∧
      Added sites g (applyEach (applyStatement schema label o k) fence.statements g₁).2 ∧
      (applyEach (applyStatement schema label o k) fence.statements g₁).2.Owns o k := by
    refine applyEach_keeps (fun g' => g'.Sound ∧ Added sites g g' ∧ g'.Owns o k) (fun line g' ⟨h', ha', hk'⟩ => ?_)
      fence.statements ⟨h₁, ha₁, hk₁⟩
    have hstep := h'.added_applyStatement schema (fun o ho => hnew o (ha'.missing ho)) label ho hk' line
    exact ⟨(outlastsDocuments_sound schema).applyStatement h' label o k line, ha'.trans hstep, hstep.owns hk'⟩
  rw [applyFence, hrun]
  exact hall.2.1

/-- A block is about a node that its header names or makes. -/
theorem Sound.added_applyBlock {block : Block} (hlabels : ∀ f ∈ block.fences, Text.collapse? f.label = f.label)
    (hhead : ∀ o, g.names.byName.get? (.ofName block.name block.qualifier) = some o → sites o) :
    Added sites g (applyBlock schema block g).2 := by
  have hsite : sites (g.resolve block.name block.qualifier).1 := by
    cases hk : g.names.byName.get? (.ofName block.name block.qualifier) with
    | some o =>
      rw [resolve_known hk]
      exact hhead o hk
    | none =>
      rw [resolve_unknown hk]
      exact hnew _ (Table.contains_eq_false.mp (h.framed.unused_mint _ _))
  obtain ⟨n, hid, hn, happly⟩ := h.framed.applyBlock_eq schema block
  rw [hid] at hsite
  have hthere : (g.resolve block.name block.qualifier).2.nodes.contains n.id = true := Table.contains_iff.mpr ⟨n, hn⟩
  have hfence : ∀ f ∈ block.fences, ∀ g', g'.Sound ∧ Added sites g g' ∧ g'.nodes.contains n.id = true →
      (applyFence schema n.displayName n.id f g').2.Sound ∧
        Added sites g (applyFence schema n.displayName n.id f g').2 ∧
        (applyFence schema n.displayName n.id f g').2.nodes.contains n.id = true := by
    intro f hf g' ⟨h', ha', ho'⟩
    have hstep := h'.added_applyFence schema (fun o ho => hnew o (ha'.missing ho)) n.displayName hsite ho' (hlabels f hf)
    exact ⟨(outlastsDocuments_sound schema).applyFence h' _ _ f, ha'.trans hstep, hstep.contains ho'⟩
  have hall := applyEach_keeps_of_mem (I := fun g' => g'.Sound ∧ Added sites g g' ∧ g'.nodes.contains n.id = true)
    hfence ⟨h.resolve _ _, h.added_resolve hnew _ _, hthere⟩
  rw [happly]
  exact hall.2.1

omit hnew in
/-- What a document adds it adds at nodes that it heads and at nodes that it makes. -/
theorem Sound.added_applyDocument {d : Document}
    (hlabels : ∀ b ∈ d.blocks, ∀ f ∈ b.fences, Text.collapse? f.label = f.label) :
    Added (fun o => g.nodes.contains o = true → g.Heads d o) g (applyDocument schema d g).2 := by
  refine (applyEach_keeps_of_mem (I := fun g' => g'.Sound ∧ Added _ g g') (fun b hb g' ⟨h', ha'⟩ => ?_)
    ⟨h, .refl _ g⟩).2
  have hnew : ∀ o, g.nodes.get? o = none → g.nodes.contains o = true → g.Heads d o := by
    intro o ho hthere
    rw [Table.contains, ho] at hthere
    cases hthere
  have hstep := h'.added_applyBlock schema (fun o ho => hnew o (ha'.missing ho)) (hlabels b hb) fun o hk => ?_
  · exact ⟨(outlastsDocuments_sound schema).applyBlock h' b, ha'.trans hstep⟩
  · rcases ha'.named hk with hold | hmissing
    · obtain ⟨n, hlookup, -, hid⟩ := h.framed.lookup_known hold
      exact fun _ => ⟨b, hb, n, hlookup, hid⟩
    · exact hnew o hmissing

end Documents

end Graph

namespace Session

open Morphology.Graph

/-- Documents leave the nodes alone that they do not head, and take nothing from the others. -/
theorem added_of_apply {s : Session} (h : s.Reachable) (text : String) :
    let s' := (s.apply text).2
    s'.settings = s.settings ∧ s'.schema = s.schema ∧
      s.graph.Added (fun o => s.graph.nodes.contains o = true → s.graph.Heads (Document.parse text) o) s'.graph ∧
      ∀ o n, s.graph.nodes.get? o = some n →
        (∀ b ∈ (Document.parse text).blocks, s.graph.lookup b.name b.qualifier ≠ some n) →
        s'.graph.nodes.get? o = some n ∧ s'.graph.holding o = s.graph.holding o := by
  have hadded := h.sound.added_applyDocument s.schema (Document.label_of_parse text)
  refine ⟨rfl, rfl, hadded, fun o n hn hunheaded => ?_⟩
  have hsite : ¬(s.graph.nodes.contains o = true → s.graph.Heads (Document.parse text) o) := by
    intro hsite
    obtain ⟨b, hb, n', hlookup, rfl⟩ := hsite (Table.contains_iff.mpr ⟨n, hn⟩)
    obtain ⟨-, hn'⟩ := h.sound.framed.lookup_eq_some.mp hlookup
    rw [hn] at hn'
    cases hn'
    exact hunheaded b hb hlookup
  exact ⟨(hadded.elsewhere.nodes o hsite).trans hn, hadded.elsewhere.holdings o hsite⟩

def meadow : Session := feeder.after (.apply "# Crow\n:::cnl\n<eats> worm\n:::\n")

theorem reachable_meadow : meadow.Reachable := by
  have hfeeder : Step Operation.Plain (fresh {} ⟨{}, {}⟩) feeder := ⟨.changeSchema _, trivial, rfl⟩
  have hmeadow : Step Operation.Plain feeder meadow := ⟨.apply _, trivial, rfl⟩
  exact ⟨{}, ⟨{}, {}⟩, by decide, (Relation.ReflTransGen.single hfeeder).tail hmeadow⟩

def wormMeal : String := "# Worm\n:::cnl\n<eats> leaf\n<eats> crow\n:::\n"

/-- What the worm eats is written at the worm, and the crow is none the wiser. -/
theorem added_meadow :
    meadow.Reachable ∧ meadow.graph.nodes.size = 2 ∧ ((meadow.apply wormMeal).2.graph.nodes.size,
      (meadow.apply wormMeal).1.created) = (3, 2) ∧
      ∃ n, meadow.graph.nodes.get? ⟨"local/default/crow"⟩ = some n ∧
        (meadow.apply wormMeal).2.graph.nodes.get? ⟨"local/default/crow"⟩ = some n ∧
        (meadow.apply wormMeal).2.graph.holding ⟨"local/default/crow"⟩ =
          meadow.graph.holding ⟨"local/default/crow"⟩ := by
  have hfacts : meadow.graph.nodes.size = 2 ∧ ((meadow.apply wormMeal).2.graph.nodes.size,
      (meadow.apply wormMeal).1.created) = (3, 2) ∧ meadow.graph.nodes.contains ⟨"local/default/crow"⟩ = true ∧
      ∀ b ∈ (Document.parse wormMeal).blocks,
        (meadow.graph.lookup b.name b.qualifier).map (·.id) ≠ some ⟨"local/default/crow"⟩ := by decide +kernel
  obtain ⟨hsize, hadded, hthere, hids⟩ := hfacts
  obtain ⟨n, hn⟩ := Table.contains_iff.mp hthere
  have hunheaded : ∀ b ∈ (Document.parse wormMeal).blocks, meadow.graph.lookup b.name b.qualifier ≠ some n := by
    intro b hb hlookup
    refine hids b hb ?_
    rw [hlookup, Option.map_some, (reachable_meadow.sound.node hn).1]
  obtain ⟨-, -, -, hkept⟩ := added_of_apply reachable_meadow wormMeal
  obtain ⟨hn', hholding⟩ := hkept _ n hn hunheaded
  exact ⟨reachable_meadow, hsize, hadded, n, hn, hn', hholding⟩

end Session

end Morphology
