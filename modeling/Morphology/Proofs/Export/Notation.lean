import Morphology.Proofs.Export.Ledger

/-! Documents of statements only. Where all of their texts are proper, such documents are read from their own text
without an error, and say the same. -/

namespace Morphology

open Text

def Segment.IsNotation : Segment → Prop
  | prose _ => False
  | fence f => ∀ l ∈ f.lines, ∃ s, l.onLine 0 = .statement 0 s

theorem Segment.isNotation_bare {s : Segment} : s.bare.IsNotation ↔ s.IsNotation := by
  cases s with
  | prose text => exact Iff.rfl
  | fence f => simp [bare, IsNotation]

theorem FenceLine.eq_statement {l : FenceLine} {s : Statement} (h : l.onLine 0 = .statement 0 s) :
    ∃ n, l = .statement n s := by
  cases l with
  | statement n s' =>
    cases h
    exact ⟨n, rfl⟩
  | invalid n raw => cases h
  | blank => cases h

theorem Fence.saying_onLine (f : Fence) (n m : Nat) (closed : Bool) :
    Fence.saying ⟨f.label, n, f.lines.map (FenceLine.onLine m), closed⟩ = f.saying := by
  have hlines (ls : List FenceLine) :
      (Fence.statements ⟨f.label, n, ls.map (FenceLine.onLine m), closed⟩).map (·.2) =
        (Fence.statements ⟨f.label, f.line, ls, f.closed⟩).map (·.2) := by
    induction ls with
    | nil => rfl
    | cons l ls ih => cases l <;> simpa [Fence.statements, FenceLine.onLine] using ih
  exact congrArg (Prod.mk f.label) (hlines f.lines)

namespace Block

theorem passage_bare (b : Block) : b.bare.passage = b.passage := by
  have hfences (segments : List Segment) :
      ((Block.fences ⟨b.name, b.qualifier, 0, segments.map Segment.bare, []⟩).map Fence.saying) =
        (Block.fences ⟨b.name, b.qualifier, b.line, segments, b.errors⟩).map Fence.saying := by
    induction segments with
    | nil => rfl
    | cons s segments ih =>
      cases s with
      | prose text => exact ih
      | fence f =>
        show Fence.saying _ :: _ = f.saying :: _
        rw [← f.saying_onLine 0 0 true]
        exact congrArg (List.cons _) ih
  simp only [passage, bare, hfences]

theorem mem_fromLine {b : Block} {n : Nat} {blocks : List Block} (h : b ∈ fromLine n blocks) :
    ∃ c ∈ blocks, ∃ k, b = c.onLine k := by
  induction blocks generalizing n with
  | nil => cases h
  | cons c blocks ih =>
    rcases List.mem_cons.mp h with rfl | h
    · exact ⟨c, List.mem_cons_self, n, rfl⟩
    · obtain ⟨d, hd, hk⟩ := ih h
      exact ⟨d, List.mem_cons_of_mem _ hd, hk⟩

theorem errors_onLine {b : Block} (h : ∀ s ∈ b.segments, s.IsNotation) (n : Nat) : (b.onLine n).errors = [] := by
  have hsegments : ∀ s ∈ (b.onLine n).segments, s.IsNotation := by
    intro s hs
    have hbare : (b.onLine n).segments.map Segment.bare = b.segments.map Segment.bare :=
      congrArg Block.segments (bare_onLine n b)
    obtain ⟨t, ht, heq⟩ := List.mem_map.mp (hbare ▸ List.mem_map_of_mem hs)
    rw [← Segment.isNotation_bare, ← heq, Segment.isNotation_bare]
    exact h t ht
  refine List.flatMap_eq_nil_iff.mpr fun f hf => List.filterMap_eq_nil_iff.mpr fun l hl => ?_
  obtain ⟨s, hs, hsf⟩ := List.mem_filterMap.mp hf
  cases s with
  | prose text => cases hsf
  | fence f' =>
    cases hsf
    obtain ⟨s', hl'⟩ := hsegments _ hs l hl
    obtain ⟨k, rfl⟩ := FenceLine.eq_statement hl'
    rfl

theorem canonical_of_proper {b : Block} (hsegments : ∀ s ∈ b.segments, s.IsNotation ∧ s.IsClosed)
    (hqualifier : ∀ q ∈ b.qualifier, IsProper q) (h : b.Proper) : b.Canonical := by
  have hfence : ∀ s ∈ b.segments, s.isFence = true := by
    intro s hs
    cases s with
    | prose text => exact absurd (hsegments _ hs).1 id
    | fence f => rfl
  have hpair {t : String} (ht : IsProper t) : IsTidy t ∧ ¬['*', '*'] <:+: t.toList :=
    ⟨ht.tidy, ht.not_infix (c := '*') List.mem_cons_self (by decide)⟩
  refine ⟨hpair h.name, fun q hq => hpair (hqualifier q hq), ?_, fun s hs => ?_⟩
  · refine (List.pairwise_of_forall_mem_list fun s hs t _ => ?_).isChain
    exact Or.inl (hfence s hs)
  · cases s with
    | prose text => exact absurd (hsegments _ hs).1 id
    | fence f =>
      obtain ⟨hlines, hclosed⟩ := hsegments _ hs
      have hf := h.fences f (List.mem_filterMap.mpr ⟨_, hs, rfl⟩)
      refine ⟨hclosed, fun l hl => ⟨(hf.label l hl).tidy, ?_⟩, fun l hl => ?_⟩
      · rintro inner rfl
        exact (hf.label _ hl).not_mem (c := '<') (by decide) (by simp)
      · obtain ⟨s, hls⟩ := hlines l hl
        obtain ⟨n, rfl⟩ := FenceLine.eq_statement hls
        have hmem : (n, s) ∈ f.statements := List.mem_filterMap.mpr ⟨_, hl, rfl⟩
        exact Statement.canonical_of_proper (hf.statements _ hmem)

end Block

namespace Document

/-- What is read from the text of a document of proper statements says the same, and no line of it is an error. -/
theorem passages_parse_render {d : Document} (hpreamble : d.preamble = "")
    (hstated : ∀ b ∈ d.blocks, ∀ s ∈ b.segments, s.IsNotation ∧ s.IsClosed)
    (hqualifier : ∀ b ∈ d.blocks, ∀ q ∈ b.qualifier, IsProper q) (hproper : ∀ b ∈ d.blocks, b.Proper) :
    (parse d.render).blocks.map Block.passage = d.blocks.map Block.passage ∧
      ∀ b ∈ (parse d.render).blocks, b.errors = [] := by
  have hcanonical : ∀ b ∈ d.blocks, b.Canonical := fun b hb =>
    Block.canonical_of_proper (hstated b hb) (hqualifier b hb) (hproper b hb)
  have hlegible : d.Legible := ⟨⟨[], hpreamble, by simp⟩, fun b hb => (hcanonical b hb).legible.1⟩
  have hparse : parse d.render = d.renumbered :=
    parse_render_of_survives hlegible (fun b hb => (hcanonical b hb).legible.2.1)
      fun b hb => (hcanonical b hb).legible.2.2
  rw [hparse]
  constructor
  · have hbare : d.renumbered.blocks.map Block.bare = d.blocks.map Block.bare :=
      congrArg Document.blocks d.bare_renumbered
    have hpassages (blocks : List Block) : blocks.map Block.passage = (blocks.map Block.bare).map Block.passage := by
      rw [List.map_map]
      exact List.map_congr_left fun b _ => (b.passage_bare).symm
    rw [hpassages, hbare, ← hpassages]
  · intro b hb
    obtain ⟨c, hc, k, rfl⟩ := Block.mem_fromLine hb
    exact Block.errors_onLine (fun s hs => (hstated c hc s hs).1) k

end Document

end Morphology
