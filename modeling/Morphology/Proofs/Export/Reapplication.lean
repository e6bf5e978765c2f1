import Morphology.Proofs.Export.Content
import Morphology.Proofs.Export.Refinement
import Morphology.Proofs.Schema.Building
import Morphology.Proofs.Session.Operation

/-! Sessions made of documents. The export of such a session, applied to a new one, gives a graph with the same
content and not a single error, as long as every name and every part of a statement is wordy. -/

namespace Morphology

open Text

/-! ## Schemas -/

structure SchemaPlan.Wordy (plan : SchemaPlan) : Prop where
  relations : ∀ d ∈ plan.relationTypes, IsWordy d.name
  attributes : ∀ p ∈ plan.attributeTypes, IsWordy p.name

theorem AttributePlan.name_of_resolve {p : AttributePlan} {d : AttributeType} (h : p.resolve = .ok d) :
    d.name = p.name := by
  unfold AttributePlan.resolve at h
  split at h
  · cases h
  · simp only at h
    split at h
    · cases h
    · cases h
      rfl

namespace SchemaTier

/-- Each type of edges stands under its folded name, and this name is wordy. -/
structure Wordy (tier : SchemaTier) : Prop where
  relation : ∀ {key d}, tier.relationTypes.get? key = some d → IsWordy d.name ∧ fold d.name = key
  attr : ∀ {key d}, tier.attributeTypes.get? key = some d → IsWordy d.name ∧ fold d.name = key

theorem wordy_empty : Wordy {} where
  relation h := by cases h
  attr h := by cases h

end SchemaTier

theorem SchemaPlan.Wordy.build {plan : SchemaPlan} (h : plan.Wordy) {tier : SchemaTier}
    (hbuild : plan.build = .ok tier) : tier.Wordy := by
  refine build_induction SchemaTier.wordy_empty (fun tier d hd ht => ?_) hbuild
  cases d with
  | nodeType d => exact ⟨ht.relation, ht.attr⟩
  | relationType d =>
    refine ⟨fun {key d'} hd' => ?_, ht.attr⟩
    rw [SchemaTier.put, Table.lookup_insert] at hd'
    split at hd'
    · rename_i hkey
      cases hd'
      exact ⟨h.relations d hd, hkey.symm⟩
    · exact ht.relation hd'
  | attributeType d =>
    refine ⟨ht.relation, fun {key d'} hd' => ?_⟩
    rw [SchemaTier.put, Table.lookup_insert] at hd'
    split at hd'
    · rename_i hkey
      cases hd'
      obtain ⟨p, hp, hresolved⟩ := hd
      exact ⟨AttributePlan.name_of_resolve hresolved ▸ h.attributes p hp, hkey.symm⟩
    · exact ht.attr hd'

theorem SchemaTier.Wordy.schema {tier : SchemaTier} (h : tier.Wordy) : Schema.Wordy { shared := tier } where
  relation {name d} hd := by
    refine h.relation ?_
    simpa [Schema.relationType?, Schema.findRelationType, SchemaTier.relationType?, Table.get?_empty] using hd
  attr {name d} hd := by
    refine h.attr ?_
    simpa [Schema.attributeType?, Schema.findAttributeType, SchemaTier.attributeType?, Table.get?_empty] using hd

/-! ## Sessions -/

namespace Session

/-- The session after some texts, whatever their reports. -/
def applyAll (texts : List String) (s : Session) : Session := texts.foldl (fun s text => (s.apply text).2) s

theorem exists_keeps_applyAll {s : Session} (hw : s.schema.Wordy) {texts : List String}
    (htexts : ∀ text ∈ texts, (Document.parse text).Wordy) (h : ∃ a, s.graph.Keeps s.schema a) :
    ∃ a, (s.applyAll texts).graph.Keeps s.schema a := by
  induction texts generalizing s with
  | nil => exact h
  | cons text texts ih =>
    obtain ⟨a, h⟩ := h
    have hproper := (htexts text List.mem_cons_self).proper
    exact ih (s := (s.apply text).2) hw (fun t ht => htexts t (List.mem_cons_of_mem _ ht))
      ⟨_, (h.applyDocument hw hproper).1⟩

/-- The text of a graph that keeps a ledger, applied to an empty graph, leaves the ledger in it. -/
theorem keeps_of_export {schema : Schema} (hw : schema.Wordy) {a : Ledger} {g : Graph} (h : g.Keeps schema a)
    (space : Namespace) :
    let r := (Graph.empty space).applyDocument schema (Document.parse g.toDocument.render)
    r.2.Keeps schema a ∧ r.1.errorCount = 0 := by
  have hpassages := h.passages_toDocument
  have hexported {b : Block} (hb : b.passage ∈ (g.accounts a).map a.passage) :
      b.Proper ∧ (∀ q ∈ b.qualifier, IsProper q) ∧
        ∀ f ∈ b.fences, ∀ x ∈ f.statements, (schema.entry? x.2).isSome := by
    obtain ⟨c, hc, heq⟩ := List.mem_map.mp hb
    have hc := h.mem_accounts.mp hc
    obtain ⟨hproper, haccepted⟩ := h.sound.passage_spec hc
    have hqualifier : b.qualifier = c.qualifier := (congrArg Passage.qualifier heq).symm
    refine ⟨Block.proper_of_passage (heq ▸ hproper), ?_, fun f hf x hx => ?_⟩
    · rw [hqualifier]
      exact (h.sound.account hc).2.qualifier
    · refine haccepted f.saying ?_ x.2 (List.mem_map_of_mem hx)
      rw [heq]
      exact List.mem_map_of_mem hf
  have hblocks : ∀ b ∈ g.toDocument.blocks, b.passage ∈ (g.accounts a).map a.passage :=
    fun b hb => hpassages ▸ List.mem_map_of_mem hb
  have hstated : ∀ b ∈ g.toDocument.blocks, ∀ s ∈ b.segments, s.IsNotation ∧ s.IsClosed := by
    intro b hb
    obtain ⟨n, -, rfl⟩ := List.mem_map.mp hb
    exact g.nodeBlock_segments n
  obtain ⟨hread, herrors⟩ := Document.passages_parse_render rfl hstated
    (fun b hb => (hexported (hblocks b hb)).2.1) fun b hb => (hexported (hblocks b hb)).1
  -- What is parsed says what was rendered, so that its blocks are passages of the ledger as well.
  have hparsed : ∀ b ∈ (Document.parse g.toDocument.render).blocks, b.passage ∈ (g.accounts a).map a.passage :=
    fun b hb => hpassages ▸ hread ▸ List.mem_map_of_mem hb
  obtain ⟨hkeeps, hclean⟩ := (Graph.keeps_empty schema space).applyDocument hw
    (d := Document.parse g.toDocument.render) fun b hb => (hexported (hparsed b hb)).1
  rw [hread, hpassages, Ledger.replay h.sound (fun c hc => h.mem_accounts.mp hc) (fun k c hc => ?_) h.nodup_accounts]
    at hkeeps
  · exact ⟨hkeeps, hclean fun b hb => ⟨herrors b hb, (hexported (hparsed b hb)).2.2⟩⟩
  · exact h.mem_accounts.mpr ((h.sound.account hc).1 ▸ hc)

/-- A session that was made of documents comes back from its export. -/
theorem sameContent_of_export {settings : Settings} {s₀ : Session} (hcreate : create settings = .ok s₀)
    (hschema : settings.schema.Wordy) {texts : List String} (htexts : ∀ text ∈ texts, (Document.parse text).Wordy) :
    let s := s₀.applyAll texts
    let r := s₀.apply s.exportText
    r.1.errorCount = 0 ∧ s.graph.SameContent r.2.graph := by
  obtain ⟨tier, hbuild, rfl⟩ := create_eq_ok hcreate
  have hw := (hschema.build hbuild).schema
  obtain ⟨a, ha⟩ := exists_keeps_applyAll (s := ⟨settings, { shared := tier }, Graph.empty settings.space⟩) hw htexts
    ⟨Ledger.empty, Graph.keeps_empty _ _⟩
  obtain ⟨hkeeps, hclean⟩ := keeps_of_export hw ha settings.space
  exact ⟨hclean, ha.sameContent hkeeps⟩

def rookery : Settings where
  graph := "birds:2"
  schema :=
    { relationTypes := [{ name := "eats" }]
      attributeTypes := [{ name := "Wing span", dataType := "number" }] }

def rookeryTexts : List String :=
  ["# Crow **hooded**\n:::cnl\n<eats> seed [often]\nhas wing span: 1.0 *m*\n:::\n:::cnl young\n<Eats> Seed\n:::\n",
    "# Seed\n:::cnl\n<eats> **Hooded** crow\n:::\n"]

/-- The seed is a target before it has a block, and both morphs of the crow refer to one relation. -/
theorem sameContent_rookery :
    ∃ s₀, create rookery = .ok s₀ ∧ rookery.schema.Wordy ∧ (∀ text ∈ rookeryTexts, (Document.parse text).Wordy) ∧
      let s := s₀.applyAll rookeryTexts
      let r := s₀.apply s.exportText
      r.1.errorCount = 0 ∧ s.graph.SameContent r.2.graph := by
  have hschema : rookery.schema.Wordy := ⟨by decide, by decide⟩
  have htexts : ∀ text ∈ rookeryTexts, (Document.parse text).Wordy := by decide +kernel
  cases hcreate : create rookery with
  | ok s₀ => exact ⟨s₀, rfl, hschema, htexts, sameContent_of_export hcreate hschema htexts⟩
  | error e =>
    have hok : (create rookery).isOk = true := by decide +kernel
    rw [hcreate] at hok
    cases hok

end Session

end Morphology
