import Morphology.Proofs.Application.Writing
import Morphology.Proofs.Document.Reading
import Morphology.Proofs.Session.Attainable

/-! Documents applied twice. The first time makes every node, morph and edge that the document is about, and writes
each record as the last statement about the edge has it; the second time finds all of them and writes the same
records. `Graph.Settles` says this of one step, for every graph that has grown from what the step left behind, so
that it holds of many steps in a row. -/

namespace Morphology

/-- The report on statements whose edges are there already. -/
def Report.again (r : Report) : Report := { r with applied := r.applied.map fun a => { a with created := false } }

theorem Report.again_append (r r' : Report) : (r ++ r').again = r.again ++ r'.again := by
  show Report.mk ((r.applied ++ r'.applied).map _) _ _ _ = _
  rw [List.map_append]
  rfl

theorem Report.created_again (r : Report) : r.again.created = 0 := by
  simp [created, again]

/-- What a report says of a statement, but for whether its edge is new. -/
def Applied.entry (a : Applied) : String × Nat × EdgeRef := (a.block, a.line, a.edge)

theorem Report.entries_again (r : Report) : r.again.applied.map Applied.entry = r.applied.map Applied.entry := by
  rw [again, List.map_map]
  rfl

namespace Graph

structure Settles (step : Graph → Report × Graph) (g : Graph) : Prop where
  framed : (step g).2.Framed
  grown : g.Grown (step g).2
  again : ∃ news, (∀ e, (step g).2.record? e = (news e).or (g.record? e)) ∧
    ∀ h, h.Framed → (step g).2.Grown h → (step h).1 = (step g).1.again ∧ Rewritten news h (step h).2

section Steps

variable {step inner : Graph → Report × Graph} {g g₁ : Graph}

/-- A preparation that adds to the graph, and has nothing to add to a larger one, may come first. -/
theorem Settles.of_prepared (hs : Settles inner g₁) (hg : g.Grown g₁) (hrecords : ∀ e, g₁.record? e = g.record? e)
    (hstep : step g = inner g₁) (hagain : ∀ h, h.Framed → g₁.Grown h → step h = inner h) : Settles step g := by
  obtain ⟨news, hnews, hrerun⟩ := hs.again
  refine ⟨hstep ▸ hs.framed, hstep ▸ hg.trans hs.grown, news, fun e => ?_, fun h hh hgh => ?_⟩
  · rw [hstep, hnews, hrecords]
  · rw [hstep] at hgh ⊢
    rw [hagain h hh (hs.grown.trans hgh)]
    exact hrerun h hh hgh

theorem Settles.report_append (hs : Settles step g) {r : Report} (hr : r.again = r) :
    Settles (fun g => (r ++ (step g).1, (step g).2)) g := by
  obtain ⟨news, hnews, hrerun⟩ := hs.again
  refine ⟨hs.framed, hs.grown, news, hnews, fun h hh hgh => ?_⟩
  obtain ⟨hreport, hrewritten⟩ := hrerun h hh hgh
  exact ⟨by rw [hreport, Report.again_append, hr], hrewritten⟩

theorem settles_applyEach {α : Type} {step : α → Graph → Report × Graph} {I : Graph → Prop} {items : List α}
    (hI : ∀ g g', I g → g.Grown g' → I g')
    (hstep : ∀ item ∈ items, ∀ g, g.Framed → I g → Settles (step item) g) (h : g.Framed) (hg : I g) :
    Settles (applyEach step items) g := by
  induction items generalizing g with
  | nil => exact ⟨h, .refl g, fun _ => none, fun _ => rfl, fun h' _ _ => ⟨rfl, .refl h'⟩⟩
  | cons item items ih =>
    have hs := hstep item List.mem_cons_self g h hg
    have hrest := ih (fun i hi => hstep i (List.mem_cons_of_mem _ hi)) hs.framed (hI _ _ hg hs.grown)
    obtain ⟨news, hnews, hrerun⟩ := hs.again
    obtain ⟨news', hnews', hrerun'⟩ := hrest.again
    refine ⟨hrest.framed, hs.grown.trans hrest.grown, fun e => (news' e).or (news e), fun e => ?_, fun h hh hgh => ?_⟩
    · rw [Option.or_assoc, ← hnews]
      exact hnews' e
    · obtain ⟨hreport, hrewritten⟩ := hrerun h hh (hrest.grown.trans hgh)
      obtain ⟨hreport', hrewritten'⟩ := hrerun' _ (hrewritten.framed hh) (hgh.trans hrewritten.grown)
      refine ⟨?_, hrewritten.trans hrewritten'⟩
      show (step item h).1 ++ _ = ((step item g).1 ++ _).again
      rw [Report.again_append, ← hreport, ← hreport']

end Steps

variable (schema : Schema) {g : Graph} (h : g.Framed) {o : NodeId}

include h

theorem settles_applyStatement (label : String) {k : MorphId} (hk : g.Owns o k) (line : Nat × Statement) :
    Settles (applyStatement schema label o k line) g := by
  have hframed := (outlastsDocuments_framed schema).applyStatement h label o k line
  have hrun := h.applyStatement_eq schema line hk label
  cases herrors : (Grounding.ofStatement schema g o line.2 line.1).errors.isEmpty with
  | false =>
    rw [if_neg (by simp [herrors])] at hrun
    refine ⟨hframed, hrun ▸ .refl g, fun _ => none, fun e => by rw [hrun]; rfl, fun h' hh hgh => ?_⟩
    rw [hrun] at hgh ⊢
    rw [hh.applyStatement_eq schema line (hgh.owns hk), h.errors_eq schema line hh hgh, if_neg (by simp [herrors])]
    exact ⟨rfl, .refl h'⟩
  | true =>
    rw [if_pos herrors] at hrun
    obtain ⟨-, hroom, hrecords⟩ := h.roomFor_spec schema line (o := o)
    obtain ⟨m, hm, -⟩ := hroom.owns hk
    have hgrown := hroom.trans (grown_upserted _ k (recordFor schema o line g))
    refine ⟨hframed, hrun ▸ hgrown, fun e => if e = (recordFor schema o line g).ref then
      some (recordFor schema o line g) else none, fun e => ?_, fun h' hh hgh => ?_⟩
    · rw [hrun, record?_upserted, hrecords]
      by_cases he : e = (recordFor schema o line g).ref <;> simp [he]
    · rw [hrun] at hgh ⊢
      obtain ⟨hrecord, hneeds⟩ := h.recordFor_eq schema line (o := o) hh ((grown_upserted _ k _).trans hgh)
      have hbears := hgh.bears (bears_upserted (w := recordFor schema o line g) hm)
      rw [hh.applyStatement_eq schema line ((hgrown.trans hgh).owns hk),
        h.errors_eq schema line hh (hgrown.trans hgh), if_pos herrors, hrecord, hneeds, hbears.there]
      exact ⟨rfl, hbears.rewritten⟩

theorem settles_applyFence (label : String) (ho : g.nodes.contains o = true) {fence : Fence}
    (hlabel : Text.collapse? fence.label = fence.label) : Settles (applyFence schema label o fence) g := by
  obtain ⟨m, g₁, h₁, hg₁, hrecords, hm, happly⟩ := h.applyFence_spec schema ho label hlabel
  have heach : Settles (applyEach (applyStatement schema label o m.id) fence.statements) g₁ :=
    settles_applyEach (I := fun g => g.Owns o m.id) (fun _ _ hk hg => hg.owns hk)
      (fun line _ _ h hk => settles_applyStatement schema h label hk line) h₁ ⟨m, h₁.morphNamed_present hm⟩
  refine heach.of_prepared hg₁ hrecords happly fun h' hh hgh => ?_
  obtain ⟨m', hm', hgm⟩ := h₁.morphNamed_grown hh hgh hm
  rw [applyFence, fenceMorph_named hm', (Morph.bare_inj hgm.bare).1]

theorem settles_applyBlock {block : Block} (hlabels : ∀ f ∈ block.fences, Text.collapse? f.label = f.label) :
    Settles (applyBlock schema block) g := by
  obtain ⟨n, g₁, h₁, hg₁, hrecords, hname, hn, happly⟩ := h.applyBlock_spec schema block
  have heach : Settles (applyEach (applyFence schema n.displayName n.id) block.fences) g₁ :=
    settles_applyEach (I := fun g => g.nodes.contains n.id = true) (fun _ _ ho hg => hg.contains_node ho)
      (fun f hf _ h ho => settles_applyFence schema h n.displayName ho (hlabels f hf)) h₁
      (Table.contains_iff.mpr ⟨n, hn⟩)
  refine (heach.report_append (r := { unread := block.errors }) rfl).of_prepared hg₁ hrecords happly fun h' _ hgh => ?_
  obtain ⟨n', hn', hgn⟩ := hgh.nodes hn
  simp only [applyBlock, resolve_known (hgh.names hname), hn', Option.map_some, Option.getD_some, hgn.displayName]

theorem settles_applyDocument {document : Document}
    (hlabels : ∀ b ∈ document.blocks, ∀ f ∈ b.fences, Text.collapse? f.label = f.label) :
    Settles (applyDocument schema document) g :=
  settles_applyEach (I := fun _ => True) (fun _ _ _ _ => trivial)
    (fun b hb _ h _ => settles_applyBlock schema h (hlabels b hb)) h trivial

omit h in
/-- The second time, nothing is left to do but to write the same records again. -/
theorem Settles.twice {step : Graph → Report × Graph} (hs : Settles step g) :
    (step (step g).2).1 = (step g).1.again ∧ SameButVersions (step g).2 (step (step g).2).2 := by
  obtain ⟨news, hnews, hrerun⟩ := hs.again
  obtain ⟨hreport, hrewritten⟩ := hrerun _ hs.framed (.refl _)
  refine ⟨hreport, hrewritten.nodes, hrewritten.eq_of_records fun e => ?_⟩
  rw [hrewritten.records, hnews, ← Option.or_assoc, Option.or_self]

end Graph

namespace Session

/-- Applied once more, a document makes no edge; the report is on the same edges and the same errors, and only
versions of nodes go up. -/
theorem sameButVersions_of_apply_twice {s : Session} (h : s.Attainable) (text : String) :
    let once := s.apply text
    let twice := once.2.apply text
    twice.1.created = 0 ∧ twice.1.applied.map Applied.entry = once.1.applied.map Applied.entry ∧
      twice.1.unread = once.1.unread ∧ twice.1.ungrounded = once.1.ungrounded ∧ twice.1.refused = once.1.refused ∧
      once.2.graph.SameButVersions twice.2.graph ∧
      twice.2.settings = once.2.settings ∧ twice.2.schema = once.2.schema := by
  obtain ⟨hreport, hgraph⟩ :=
    (Graph.settles_applyDocument s.schema h.framed (Document.label_of_parse text)).twice
  intro once twice
  have htwice : twice.1 = once.1.again := hreport
  rw [htwice]
  exact ⟨once.1.created_again, once.1.entries_again, rfl, rfl, rfl, hgraph, rfl, rfl⟩

def greed : String := "# Crow\n:::cnl\n<eats> seed [often]\n<hates> cats\n<Eats> Seed\n"

/-- An edge that is written twice is settled by the later line, and the error is found again. -/
theorem sameButVersions_feeder :
    feeder.Attainable ∧ ((feeder.apply greed).1.created, (feeder.apply greed).1.errorLines) = (1, [2, 4]) ∧
      let once := feeder.apply greed
      let twice := once.2.apply greed
      twice.1.created = 0 ∧ twice.1.applied.map Applied.entry = once.1.applied.map Applied.entry ∧
        twice.1.unread = once.1.unread ∧ twice.1.ungrounded = once.1.ungrounded ∧ twice.1.refused = once.1.refused ∧
        once.2.graph.SameButVersions twice.2.graph ∧
        twice.2.settings = once.2.settings ∧ twice.2.schema = once.2.schema :=
  ⟨attainable_feeder, by decide +kernel, sameButVersions_of_apply_twice attainable_feeder greed⟩

end Session

end Morphology
