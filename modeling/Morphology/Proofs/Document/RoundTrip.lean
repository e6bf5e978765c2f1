import Morphology.Proofs.Document.Reading

/-! Documents rendered and read again. A document in canonical form comes back as it is, on the lines of its text;
of a document that was read, every part comes back but the few that the text for it does not hold. -/

namespace Morphology

open Chars Text

/-! ## Documents without their places -/

namespace Segment

/-- The segment without its lines, in a fence that is closed. -/
def bare : Segment → Segment
  | prose text => .prose text
  | fence f => .fence ⟨f.label, 0, f.lines.map (FenceLine.onLine 0), true⟩

def IsClosed : Segment → Prop
  | prose _ => True
  | fence f => f.closed = true

end Segment

def Block.bare (b : Block) : Block := ⟨b.name, b.qualifier, 0, b.segments.map Segment.bare, []⟩

/-- The document without line numbers, errors and marks of open fences. -/
def Document.bare (d : Document) : Document := { d with blocks := d.blocks.map Block.bare }

@[simp] theorem FenceLine.onLine_onLine (m n : Nat) (l : FenceLine) : (l.onLine m).onLine n = l.onLine n := by
  cases l <;> rfl

namespace Segment

theorem bare_onLine (n : Nat) (s : Segment) : (s.onLine n).bare = s.bare := by
  cases s with
  | prose text => rfl
  | fence f =>
    have hlines : ((f.lines.zipIdx (n + 1)).map fun p => p.1.onLine p.2).map (FenceLine.onLine 0) =
        f.lines.map (FenceLine.onLine 0) := by
      conv_rhs => rw [← List.zipIdx_map_fst (n + 1) f.lines, List.map_map]
      rw [List.map_map]
      exact List.map_congr_left fun p _ => p.1.onLine_onLine p.2 0
    exact congrArg (fun lines => Segment.fence { f with line := 0, lines := lines, closed := true }) hlines

theorem onLine_bare (n : Nat) {s : Segment} (h : s.IsClosed) : s.bare.onLine n = s.onLine n := by
  cases s with
  | prose text => rfl
  | fence f =>
    have hclosed : f.closed = true := h
    simp [onLine, bare, hclosed, List.zipIdx_map, Function.comp_def]

theorem height_bare (s : Segment) : s.bare.height = s.height := by
  cases s <;> simp [bare, height]

theorem bare_fromLine (n : Nat) (segments : List Segment) : (fromLine n segments).map bare = segments.map bare := by
  induction segments generalizing n with
  | nil => rfl
  | cons s segments ih => rw [fromLine, List.map_cons, bare_onLine, ih, List.map_cons]

theorem fromLine_bare (n : Nat) {segments : List Segment} (h : ∀ s ∈ segments, s.IsClosed) :
    fromLine n (segments.map bare) = fromLine n segments := by
  induction segments generalizing n with
  | nil => rfl
  | cons s segments ih =>
    rw [List.map_cons, fromLine, fromLine, height_bare, onLine_bare n (h s List.mem_cons_self),
      ih _ fun t ht => h t (List.mem_cons_of_mem _ ht)]

theorem isClosed_reread (s : Segment) : s.reread.IsClosed := by
  cases s with
  | prose text => trivial
  | fence f => rfl

end Segment

namespace Block

def IsClosed (b : Block) : Prop := ∀ s ∈ b.segments, s.IsClosed

theorem bare_onLine (n : Nat) (b : Block) : (b.onLine n).bare = b.bare := by
  simp only [onLine, bare, Segment.bare_fromLine]

theorem bare_fromLine (n : Nat) (blocks : List Block) : (fromLine n blocks).map bare = blocks.map bare := by
  induction blocks generalizing n with
  | nil => rfl
  | cons b blocks ih => rw [fromLine, List.map_cons, bare_onLine, ih, List.map_cons]

theorem height_bare (b : Block) : b.bare.height = b.height := by
  simp [bare, height, Segment.height_bare, Function.comp_def]

theorem fromLine_bare (n : Nat) {blocks : List Block} (h : ∀ b ∈ blocks, b.IsClosed) :
    fromLine n (blocks.map bare) = fromLine n blocks := by
  induction blocks generalizing n with
  | nil => rfl
  | cons b blocks ih =>
    have hb : b.bare.onLine n = b.onLine n := by
      simp only [onLine, bare, Segment.fromLine_bare (n + 1) (h b List.mem_cons_self)]
      rfl
    rw [List.map_cons, fromLine, fromLine, height_bare, hb, ih _ fun c hc => h c (List.mem_cons_of_mem _ hc)]

theorem isClosed_reread (b : Block) : b.reread.IsClosed := by
  intro s hs
  obtain ⟨t, -, rfl⟩ := List.mem_map.mp hs
  exact t.isClosed_reread

end Block

namespace Document

theorem bare_renumbered (d : Document) : d.renumbered.bare = d.bare := by
  simp only [bare, renumbered, Block.bare_fromLine]

theorem renumbered_bare {d : Document} (h : ∀ b ∈ d.blocks, b.IsClosed) : d.bare.renumbered = d.renumbered := by
  simp only [bare, renumbered, Block.fromLine_bare _ h]

/-- Rereading is all that a legible document goes through, as far as its places are left out. -/
theorem bare_parse_render {d : Document} (h : d.Legible) : (parse d.render).bare = d.reread.bare := by
  rw [parse_render h, bare_renumbered]

end Document

/-! ## What survives -/

/-- The line of a statement is read as this statement, and any other line as it is. -/
def FenceLine.Survives : FenceLine → Prop
  | statement _ s => s.EndsClear
  | _ => True

/-- No label stands between brackets once it is written. -/
def Segment.Survives : Segment → Prop
  | prose _ => True
  | fence f => (∀ label ∈ f.label, ∀ inner, label ≠ "<" ++ inner ++ ">") ∧ ∀ l ∈ f.lines, l.Survives

/-- Where there is no qualifier, the name does not end in what passes for one; where there is one, it is not empty
and no stars stand before it that pass for its own. -/
def Block.HeaderSurvives (b : Block) : Prop :=
  match b.qualifier with
  | none => ∀ front inner, inner ≠ "" → b.name ≠ front ++ " **" ++ inner ++ "**"
  | some q => q ≠ "" ∧ ¬[' ', '*', '*'] <:+: b.name.toList

structure Block.Survives (b : Block) : Prop where
  header : b.HeaderSurvives
  segments : ∀ s ∈ b.segments, s.Survives

theorem FenceLine.Legible.reread_iff {l : FenceLine} (h : l.Legible) :
    l.reread.onLine 0 = l.onLine 0 ↔ l.Survives := by
  cases l with
  | statement _ s =>
    obtain ⟨c, cs, hs, hc⟩ := Statement.render_head h
    have hmark : ∀ c ∈ ['*', '+', '<', 'h'], isBlank c = false := List.forall_iff_forall_mem.mp (by decide)
    have hblank : Text.isBlank s.render = false := by simp [Text.isBlank, hs, hmark c hc]
    refine Iff.trans ?_ (Statement.parse_render_iff_endsClear 0 h)
    simp only [FenceLine.reread, SourceLine.fenceLine, FenceLine.render, hblank, Bool.false_eq_true, if_false]
    cases Statement.parse s.render 0 <;> simp [FenceLine.onLine]
  | invalid _ raw =>
    obtain ⟨-, hblank, -, -, hnot⟩ := h
    refine iff_of_true ?_ trivial
    simp only [FenceLine.reread, SourceLine.fenceLine, FenceLine.render, hblank, Bool.false_eq_true, if_false]
    cases hp : Statement.parse raw 0 with
    | ok s => exact absurd hp (hnot 0 s)
    | error e => rfl
  | blank => exact iff_of_true rfl trivial

theorem Segment.Legible.reread_iff {s : Segment} (h : s.Legible) : s.reread.bare = s.bare ↔ s.Survives := by
  cases s with
  | prose text => exact iff_of_true rfl trivial
  | fence f =>
    obtain ⟨hlabel, hlines⟩ := h
    have hread : ((Line.fenceOpening? (Document.fenceText f.label).toList).getD none).map String.ofList = f.label ↔
        ∀ label ∈ f.label, ∀ inner, label ≠ "<" ++ inner ++ ">" := by
      rw [fenceText_toList]
      cases hf : f.label with
      | none => exact iff_of_true rfl (by simp)
      | some label =>
        obtain ⟨hne, htidy⟩ := isTidy_iff.mp (hlabel label hf)
        obtain ⟨read, hread⟩ :
            ∃ read, Line.fenceOpening? (':' :: ':' :: ':' :: 'c' :: 'n' :: 'l' :: ' ' :: label.toList) = some read :=
          ⟨_, Line.fenceOpening?_label htidy⟩
        have hiff := Line.fenceOpening?_label_iff htidy hne
        rw [hread] at hiff
        simp only [Option.map_some, Option.getD_some, hread, Option.mem_some_iff, forall_eq']
        have hsome : read.map String.ofList = some label ↔ some read = some (some label.toList) := by
          cases read <;> simp [← String.toList_inj]
        rw [hsome, hiff]
        refine ⟨fun h inner heq => h inner.toList ?_, fun h inner heq => h (String.ofList inner) ?_⟩
        · simp [heq, Line.bracketed]
        · simp [← String.toList_inj, heq, Line.bracketed]
    rw [Segment.reread, Segment.bare, Segment.bare, Segment.Survives, ← hread]
    simp only [Segment.fence.injEq, Fence.mk.injEq, true_and, and_true, List.map_map, List.map_inj_left]
    exact and_congr_right fun _ => forall₂_congr fun l hl => (hlines l hl).reread_iff

theorem Block.headerSurvives_iff (b : Block) :
    b.HeaderSurvives ↔ (∀ q ∈ b.qualifier.map String.toList, q ≠ []) ∧
      Line.Unstarred b.name.toList (b.qualifier.map String.toList) := by
  unfold Block.HeaderSurvives
  cases b.qualifier with
  | none =>
    simp only [Option.map_none, Line.unstarred_none, Option.not_mem_none, false_implies, implies_true, true_and]
    refine ⟨fun h front inner hne heq => ?_, fun h front inner hne heq => ?_⟩
    · refine h (String.ofList front) (String.ofList inner) (by simpa using hne) ?_
      simp [← String.toList_inj, heq, Line.starred]
    · exact h front.toList inner.toList (by simpa using hne) (by simp [heq, Line.starred])
  | some q => simp [Line.unstarred_some]

theorem Block.Legible.header_iff {b : Block} (h : b.Legible) :
    (b.reread.name = b.name ∧ b.reread.qualifier = b.qualifier) ↔ b.HeaderSurvives := by
  obtain ⟨name, qualifier, hheader⟩ := h.header?_header
  obtain ⟨hne, htidy⟩ := isTidy_iff.mp h.name
  have hqualifier : ∀ q ∈ b.qualifier.map String.toList, collapse q = q := by
    simpa using fun q hq => collapse_eq_iff.mp (h.qualifier q hq)
  have hiff := Line.header?_headed_iff htidy hne hqualifier
  rw [← header_toList, hheader] at hiff
  rw [b.headerSurvives_iff, ← hiff]
  simp only [Block.reread, hheader, Option.map_some, Option.getD_some, Option.bind_some, Option.some.injEq,
    Prod.mk.injEq]
  refine and_congr ⟨fun hn => by rw [← hn, String.toList_ofList], fun hn => by rw [hn, String.ofList_toList]⟩ ?_
  cases qualifier <;> cases b.qualifier <;> simp [← String.toList_inj]

theorem Block.Legible.reread_iff {b : Block} (h : b.Legible) : b.reread.bare = b.bare ↔ b.Survives := by
  have hsegments : b.reread.segments.map Segment.bare = b.segments.map Segment.bare ↔ ∀ s ∈ b.segments, s.Survives := by
    rw [Block.reread, List.map_map, List.map_inj_left]
    exact forall₂_congr fun s hs => (h.segments s hs).reread_iff
  simp only [Block.bare, Block.mk.injEq, true_and, and_true, hsegments, ← and_assoc, h.header_iff]
  constructor
  · rintro ⟨hheader, hs⟩
    exact ⟨hheader, hs⟩
  · rintro ⟨hheader, hs⟩
    exact ⟨hheader, hs⟩

theorem Document.Legible.reread_iff {d : Document} (h : d.Legible) :
    d.reread.bare = d.bare ↔ ∀ b ∈ d.blocks, b.Survives := by
  simp only [Document.reread, Document.bare, Document.mk.injEq, true_and, List.map_map, List.map_inj_left]
  exact forall₂_congr fun b hb => (h.blocks b hb).reread_iff

/-! ## Canonical documents -/

def FenceLine.Canonical : FenceLine → Prop
  | statement _ s => s.Canonical
  | invalid _ raw => IsRow raw ∧ Text.isBlank raw = false ∧ Line.header? raw.toList = none ∧
      Line.isFenceClosing raw.toList = false ∧ ∀ line s, Statement.parse raw line ≠ .ok s
  | blank => True

def Segment.Canonical : Segment → Prop
  | prose text => ∃ rows, rows ≠ [] ∧ text = ofRows rows ∧ ∀ row ∈ rows, IsRow row ∧
      Line.header? row.toList = none ∧ Line.fenceOpening? row.toList = none
  | fence f => f.closed = true ∧ (∀ label ∈ f.label, IsTidy label ∧ ∀ inner, label ≠ "<" ++ inner ++ ">") ∧
      ∀ l ∈ f.lines, l.Canonical

structure Block.Canonical (b : Block) : Prop where
  name : IsTidy b.name ∧ ¬['*', '*'] <:+: b.name.toList
  qualifier : ∀ q ∈ b.qualifier, IsTidy q ∧ ¬['*', '*'] <:+: q.toList
  apart : b.segments.IsChain fun s t => s.isFence = true ∨ t.isFence = true
  segments : ∀ s ∈ b.segments, s.Canonical

structure Document.Canonical (d : Document) : Prop where
  preamble : ∃ rows, d.preamble = ofRows rows ∧ ∀ row ∈ rows, IsRow row ∧ Line.header? row.toList = none
  blocks : ∀ b ∈ d.blocks, b.Canonical

theorem FenceLine.Canonical.legible {l : FenceLine} (h : l.Canonical) : l.Legible ∧ l.Survives := by
  cases l with
  | statement _ s => exact Statement.canonical_iff.mp h
  | invalid _ raw => exact ⟨h, trivial⟩
  | blank => exact ⟨trivial, trivial⟩

theorem Segment.Canonical.legible {s : Segment} (h : s.Canonical) : s.Legible ∧ s.Survives ∧ s.IsClosed := by
  cases s with
  | prose text => exact ⟨h, trivial, trivial⟩
  | fence f =>
    obtain ⟨hclosed, hlabel, hlines⟩ := h
    exact ⟨⟨fun label hl => (hlabel label hl).1, fun l hl => (hlines l hl).legible.1⟩,
      ⟨fun label hl => (hlabel label hl).2, fun l hl => (hlines l hl).legible.2⟩, hclosed⟩

theorem Block.Canonical.legible {b : Block} (h : b.Canonical) : b.Legible ∧ b.Survives ∧ b.IsClosed := by
  have hlegible : b.Legible :=
    ⟨h.name.1, fun q hq => (h.qualifier q hq).1.2, h.apart, fun s hs => (h.segments s hs).legible.1⟩
  refine ⟨hlegible, ⟨?_, ?_⟩, ?_⟩
  · unfold Block.HeaderSurvives
    cases hq : b.qualifier with
    | none =>
      rintro front inner - hname
      refine h.name.2 ⟨front.toList ++ [' '], inner.toList ++ ['*', '*'], ?_⟩
      simp [hname]
    | some q => exact ⟨(h.qualifier q hq).1.1, fun hin => h.name.2 ((List.suffix_cons ' ' _).isInfix.trans hin)⟩
  · exact fun s hs => (h.segments s hs).legible.2.1
  · exact fun s hs => (h.segments s hs).legible.2.2

namespace Document

theorem Canonical.legible {d : Document} (h : d.Canonical) : d.Legible :=
  ⟨h.preamble, fun b hb => (h.blocks b hb).legible.1⟩

/-- A document all of which survives, its fences closed, is read from its own text. -/
theorem parse_render_of_survives {d : Document} (h : d.Legible) (hsurvives : ∀ b ∈ d.blocks, b.Survives)
    (hclosed : ∀ b ∈ d.blocks, b.IsClosed) : parse d.render = d.renumbered := by
  have hreread : d.reread.bare = d.bare := h.reread_iff.mpr hsurvives
  have hclosed' : ∀ b ∈ d.reread.blocks, b.IsClosed := by
    intro b hb
    obtain ⟨c, -, rfl⟩ := List.mem_map.mp hb
    exact c.isClosed_reread
  calc parse d.render = d.reread.renumbered := parse_render h
    _ = d.reread.bare.renumbered := (renumbered_bare hclosed').symm
    _ = d.bare.renumbered := by rw [hreread]
    _ = d.renumbered := renumbered_bare hclosed

/-- A canonical document is read from its own text, on the lines and with the errors that it has there. -/
theorem parse_render_of_canonical {d : Document} (h : d.Canonical) : parse d.render = d.renumbered :=
  parse_render_of_survives h.legible (fun b hb => (h.blocks b hb).legible.2.1) fun b hb => (h.blocks b hb).legible.2.2

def aviary : Document :=
  { preamble := "Birds\n"
    blocks := [
      { name := "crow"
        qualifier := some "hooded"
        line := 0
        segments := [
          .prose "Seen twice.\n",
          .fence
            { label := some "young"
              line := 0
              lines := [.statement 0 (.relation { name := "eats", targetName := "seeds" }), .blank, .invalid 0 "seeds"]
              closed := true },
          .prose "\n"] }] }

theorem aviary_canonical : aviary.Canonical := by
  have hinvalid : (FenceLine.invalid 0 "seeds").Canonical := by
    refine ⟨by decide, by decide, by decide, by decide, fun line s h => ?_⟩
    have hfails : (Statement.parse "seeds" 0).isOk = false := by decide +kernel
    rw [(Statement.parse_eq_ok_congr line 0).mp h] at hfails
    cases hfails
  have hstatement : (FenceLine.statement 0 (.relation { name := "eats", targetName := "seeds" })).Canonical :=
    { subjectQuantifier := by simp
      adverb := by simp
      name := by decide
      targetQuantifier := by simp
      targetQualifier := by simp
      targetName := by decide
      modality := by simp }
  refine ⟨⟨["Birds"], rfl, by decide⟩, List.forall_mem_singleton.mpr ⟨by decide, by decide, by decide, ?_⟩⟩
  intro s hs
  simp only [List.mem_cons, List.not_mem_nil, or_false] at hs
  rcases hs with rfl | rfl | rfl
  · exact ⟨["Seen twice."], by simp, rfl, by decide⟩
  · refine ⟨rfl, ?_, ?_⟩
    · rintro _ ⟨⟩
      refine ⟨by decide, fun inner h => ?_⟩
      have hchars := congrArg String.toList h
      simp at hchars
    · simp only [List.forall_mem_cons, List.not_mem_nil, false_implies, implies_true, and_true]
      exact ⟨hstatement, trivial, hinvalid⟩
  · exact ⟨[""], by simp, rfl, by decide⟩

theorem parse_render_aviary : aviary.Canonical ∧ parse aviary.render = aviary.renumbered :=
  ⟨aviary_canonical, parse_render_of_canonical aviary_canonical⟩

/-- A document that was read comes back from its own text exactly when no name holds stars that pass for a qualifier,
no qualifier is empty, no label stands between brackets and no statement runs into its closing marks. -/
theorem bare_parse_render_iff {text : String} (h : '\r' ∉ text.toList) :
    (parse (parse text).render).bare = (parse text).bare ↔ ∀ b ∈ (parse text).blocks, b.Survives := by
  have hlegible := parse_legible h
  rw [bare_parse_render hlegible, hlegible.reread_iff]

/-- The label `<b>` loses its brackets when it is read again. -/
theorem parse_render_bracketed :
    let text := "# a\n:::cnl <<b>>\n:::\n"
    '\r' ∉ text.toList ∧ (parse (parse text).render).bare ≠ (parse text).bare := by
  refine ⟨by decide, fun heq => ?_⟩
  have hread : parse "# a\n:::cnl <<b>>\n:::\n" = ⟨"", [⟨"a", none, 1, [.fence ⟨some "<b>", 2, [], true⟩], []⟩]⟩ := by
    decide +kernel
  have hsurvives := (bare_parse_render_iff (by decide)).mp heq
  rw [hread] at hsurvives
  have hlabel := ((hsurvives _ List.mem_cons_self).segments _ List.mem_cons_self).1 "<b>" rfl
  exact hlabel "b" rfl

end Document

end Morphology
