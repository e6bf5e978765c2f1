import Morphology.Graph.Export
import Morphology.Proofs.Application.Making
import Morphology.Proofs.Document.RoundTrip

/-! The labels under which the morphs of a node are exported. A morph without a name is labelled for its place, and
another one may have that label for its name; then both have one label, and what is applied from the export makes one
morph of the two. Where no such name is given, every morph is kept apart from the others. -/

namespace Morphology

open Chars Text

/-! ## Labels made for places -/

/-- The label of a morph that has no name. -/
def placeLabel (place : Nat) : String := "morph " ++ ofNat place

theorem placeLabel_toList (place : Nat) :
    (placeLabel place).toList = [' '].intercalate ["morph".toList, Nat.toDigits 10 place] := by
  simp [placeLabel, ofNat, List.intercalate]

theorem collapse_placeLabel (place : Nat) : collapse (placeLabel place) = placeLabel place := by
  rw [collapse_eq_iff, placeLabel_toList]
  refine collapse_intercalate fun w hw => ?_
  rcases List.mem_pair.mp hw with rfl | rfl
  · exact ⟨by decide, List.forall_iff_forall_mem.mp (by decide)⟩
  · exact ⟨Nat.toDigits_ne_nil, fun c hc => (digit_spec (Nat.isDigit_of_mem_toDigits (by decide) (by decide) hc)).1⟩

theorem collapse?_placeLabel (place : Nat) : collapse? (some (placeLabel place)) = some (placeLabel place) := by
  have hne : (placeLabel place).isEmpty = false := by
    rw [String.isEmpty_eq_false_iff, ← String.toList_inj.ne]
    simp [placeLabel]
  simp [collapse?, collapse_placeLabel, hne]

theorem fold_placeLabel (place : Nat) : fold (placeLabel place) = placeLabel place := by
  have hsmall : ∀ c ∈ "morph ".toList, c ≠ 'Σ' ∧ lowercaseChar c = [c] :=
    List.forall_iff_forall_mem.mp (by decide)
  have hlower : Chars.lowercase (placeLabel place).toList = (placeLabel place).toList := by
    refine lowercaseAfter_eq_self (fun c hc => ?_) []
    rw [placeLabel, String.toList_append, List.mem_append] at hc
    rcases hc with hc | hc
    · exact hsmall c hc
    · rw [ofNat, String.toList_ofList] at hc
      exact (digit_spec (Nat.isDigit_of_mem_toDigits (by decide) (by decide) hc)).2
  rw [fold, collapse_placeLabel, Text.lowercase, hlower, String.ofList_toList]

theorem placeLabel_inj {p q : Nat} (h : fold (placeLabel p) = fold (placeLabel q)) : p = q := by
  rw [fold_placeLabel, fold_placeLabel, placeLabel, placeLabel, ← String.toList_inj, String.toList_append,
    String.toList_append, List.append_cancel_left_eq, String.toList_inj] at h
  exact ofNat_inj h

namespace Graph

/-- The morphs of a node that have a fence, with their places. -/
def shown (g : Graph) (n : Node) : List (Morph × Nat) :=
  (g.morphsOf n).zipIdx.filter fun m => !(n.basicMorph == m.1.id && m.1.isEmpty)

/-- A morph has no name, and another one has the name that is the label for its place. -/
def Mislabels (g : Graph) (n : Node) : Prop :=
  ∃ p m m' name, (g.morphsOf n)[p]? = some m ∧ m.name = none ∧ m.id ≠ n.basicMorph ∧
    m' ∈ g.morphsOf n ∧ m'.name = some name ∧ fold name = fold (placeLabel p)

section Labels

variable {g : Graph} {o : NodeId} {n : Node} {m m' : Morph} {p q : Nat}

theorem fenceLabel_eq (n : Node) (m : Morph) (p : Nat) :
    fenceLabel n m p = m.name.or (if n.basicMorph = m.id then none else some (placeLabel p)) := by
  unfold fenceLabel
  cases m.name <;> rfl

theorem labels_nodeBlock (g : Graph) (n : Node) :
    (g.nodeBlock n).labels = (g.shown n).map fun m => fenceLabel n m.1 m.2 := by
  simp [Block.labels, Block.fences, nodeBlock, shown, morphFence, List.filterMap_map, Function.comp_def]

variable (hf : g.Framed) (h : g.MorphsApart) (hn : g.nodes.get? o = some n)

include hf hn

theorem Framed.map_id_morphsOf : (g.morphsOf n).map (·.id) = n.morphs := by
  have hid : ∀ k ∈ n.morphs, (g.morphs.get? k).map (·.id) = some k := by
    intro k hk
    obtain ⟨m, hm, -⟩ := hf.present hn hk
    rw [hm, Option.map_some, hf.morph hm]
  rw [morphsOf, List.map_filterMap, List.filterMap_congr hid, List.filterMap_some]

include h

/-- A morph has one place. -/
theorem MorphsApart.place_inj (hm : (g.morphsOf n)[p]? = some m) (hm' : (g.morphsOf n)[q]? = some m')
    (hid : m.id = m'.id) : p = q := by
  have hids := hf.map_id_morphsOf hn
  obtain ⟨hp, -⟩ := List.getElem?_eq_some_iff.mp hm
  have honce : ((g.morphsOf n).map (·.id)).Nodup := hids ▸ h.once hn
  refine (List.getElem?_inj (by rwa [List.length_map]) honce).mp ?_
  rw [List.getElem?_map, List.getElem?_map, hm, hm', Option.map_some, Option.map_some, hid]

theorem MorphsApart.fenceLabel_eq_none_iff (hm : m ∈ g.morphsOf n) : fenceLabel n m p = none ↔ m.id = n.basicMorph := by
  rw [fenceLabel_eq, Option.or_eq_none_iff]
  constructor
  · rintro ⟨-, hbasic⟩
    by_contra hne
    rw [if_neg (Ne.symm hne)] at hbasic
    cases hbasic
  · intro hbasic
    obtain ⟨hthere, -⟩ := (hf.mem_morphsOf_iff hn).mp hm
    exact ⟨h.name_of_basic hf hn (hbasic ▸ hthere), if_pos hbasic.symm⟩

/-- Labels that are alike belong to one morph, unless one of them is made for a place. -/
theorem MorphsApart.id_eq_of_label (hm : (g.morphsOf n)[p]? = some m) (hm' : (g.morphsOf n)[q]? = some m')
    (hlabel : (fenceLabel n m p).map fold = (fenceLabel n m' q).map fold) (hclean : ¬g.Mislabels n) : m.id = m'.id := by
  have hin := List.mem_of_getElem? hm
  have hin' := List.mem_of_getElem? hm'
  by_cases hbasic : m.id = n.basicMorph
  · have hnone := (h.fenceLabel_eq_none_iff hf hn (p := p) hin).mpr hbasic
    rw [hnone, Option.map_none, eq_comm, Option.map_eq_none_iff, h.fenceLabel_eq_none_iff hf hn hin'] at hlabel
    rw [hbasic, hlabel]
  by_cases hbasic' : m'.id = n.basicMorph
  · have hnone := (h.fenceLabel_eq_none_iff hf hn (p := q) hin').mpr hbasic'
    rw [hnone, Option.map_none, Option.map_eq_none_iff, h.fenceLabel_eq_none_iff hf hn hin] at hlabel
    exact absurd hlabel hbasic
  rw [fenceLabel_eq, fenceLabel_eq, if_neg (Ne.symm hbasic), if_neg (Ne.symm hbasic')] at hlabel
  cases hname : m.name with
  | none =>
    cases hname' : m'.name with
    | none =>
      rw [hname, hname'] at hlabel
      obtain rfl := placeLabel_inj (Option.some.inj hlabel)
      rw [hm] at hm'
      cases hm'
      rfl
    | some b =>
      rw [hname, hname'] at hlabel
      exact absurd ⟨p, m, m', b, hm, hname, hbasic, hin', hname', (Option.some.inj hlabel).symm⟩ hclean
  | some a =>
    cases hname' : m'.name with
    | none =>
      rw [hname, hname'] at hlabel
      exact absurd ⟨q, m', m, a, hm', hname', hbasic', hin, hname, Option.some.inj hlabel⟩ hclean
    | some b =>
      rw [hname, hname'] at hlabel
      obtain ⟨hthere, ho⟩ := (hf.mem_morphsOf_iff hn).mp hin
      obtain ⟨hthere', ho'⟩ := (hf.mem_morphsOf_iff hn).mp hin'
      exact h.distinct hthere hthere' (ho.trans ho'.symm) hname hname' (Option.some.inj hlabel)

theorem MorphsApart.nodup_labels_iff : ((g.nodeBlock n).labels.map (Option.map fold)).Nodup ↔ ¬g.Mislabels n := by
  have hshown {x : Morph × Nat} : x ∈ g.shown n ↔
      (g.morphsOf n)[x.2]? = some x.1 ∧ (n.basicMorph = x.1.id → x.1.isEmpty = false) := by
    simp [shown, List.mem_zipIdx_iff_getElem?, imp_iff_not_or]
  have honce : (g.shown n).Nodup := by
    refine List.Nodup.filter _ (List.Nodup.of_map Prod.snd ?_)
    rw [List.zipIdx_map_snd]
    exact List.nodup_range'
  rw [labels_nodeBlock, List.map_map, List.nodup_map_iff_inj_on honce]
  constructor
  · rintro hinj ⟨p, m, m', name, hm, hnone, hbasic, hin', hname, hfold⟩
    obtain ⟨q, hm'⟩ := List.mem_iff_getElem?.mp hin'
    have hbasic' : m'.id ≠ n.basicMorph := by
      intro heq
      have hlabel := (h.fenceLabel_eq_none_iff hf hn (p := q) hin').mpr heq
      rw [fenceLabel_eq, hname] at hlabel
      cases hlabel
    have hlabel : (fenceLabel n m p).map fold = (fenceLabel n m' q).map fold := by
      rw [fenceLabel_eq, fenceLabel_eq, hnone, hname, if_neg (Ne.symm hbasic)]
      exact congrArg some hfold.symm
    have heq := hinj (m, p) (hshown.mpr ⟨hm, fun hb => absurd hb.symm hbasic⟩) (m', q)
      (hshown.mpr ⟨hm', fun hb => absurd hb.symm hbasic'⟩) hlabel
    cases heq
    rw [hnone] at hname
    cases hname
  · rintro hclean ⟨m, p⟩ hx ⟨m', q⟩ hy hlabel
    obtain ⟨hm, -⟩ := hshown.mp hx
    obtain ⟨hm', -⟩ := hshown.mp hy
    obtain rfl := h.place_inj hf hn hm hm' (h.id_eq_of_label hf hn hm hm' hlabel hclean)
    rw [hm] at hm'
    cases hm'
    rfl

omit hf hn in
theorem MorphsApart.spelled_toDocument :
    ∀ b ∈ g.toDocument.blocks, ∀ f ∈ b.fences, collapse? f.label = f.label := by
  intro b hb f hfence
  obtain ⟨n, -, rfl⟩ := List.mem_map.mp hb
  have hlabel : f.label ∈ (g.nodeBlock n).labels := List.mem_map_of_mem hfence
  rw [labels_nodeBlock] at hlabel
  obtain ⟨⟨m, p⟩, hm, hlabel⟩ := List.mem_map.mp hlabel
  have hin : m ∈ g.morphsOf n := List.mem_of_getElem? (List.mem_zipIdx_iff_getElem?.mp (List.mem_of_mem_filter hm))
  obtain ⟨k, -, hthere⟩ := List.mem_filterMap.mp hin
  have hspelled := h.spelled hthere
  rw [← hlabel, fenceLabel_eq]
  cases hname : m.name with
  | some name => rwa [hname] at hspelled
  | none =>
    rw [Option.none_or]
    split
    · rfl
    · exact collapse?_placeLabel p

end Labels

end Graph

/-! ## Applying what is exported -/

/-- What a block is about, and what its fences are about. -/
def Block.heading (b : Block) : String × Option String × List (Option String) := (b.name, b.qualifier, b.labels)

theorem Graph.keepsApart_congr {g : Graph} {b b' : Block} (h : b'.heading = b.heading) :
    g.KeepsApart b' ↔ g.KeepsApart b := by
  obtain ⟨hname, hqualifier, hlabels⟩ : b'.name = b.name ∧ b'.qualifier = b.qualifier ∧ b'.labels = b.labels := by
    simpa only [Block.heading, Prod.mk.injEq] using h
  unfold Graph.KeepsApart
  rw [hname, hqualifier, hlabels]

namespace Session

/-- In the export of a node the basic morph alone has no label, and the labels of the others differ in every spelling
unless one is made for a place and another morph has it for its name. In just these cases two morphs become one when the
export is applied, to whatever session, or the text of it where the header and the labels are read as they are. -/
theorem keepsApart_export_iff {s : Session} (h : s.Attainable) {o : NodeId} {n : Node}
    (hn : s.graph.nodes.get? o = some n) :
    let b := s.graph.nodeBlock n
    (∀ p m, (s.graph.morphsOf n)[p]? = some m → (Graph.fenceLabel n m p = none ↔ m.id = n.basicMorph)) ∧
      ((b.labels.map (Option.map fold)).Nodup ↔ ¬s.graph.Mislabels n) ∧
      ∀ s' : Session, s'.Attainable →
        ((s'.applyDocument s.graph.toDocument).2.graph.KeepsApart b ↔ ¬s.graph.Mislabels n) ∧
        ∀ b' ∈ (Document.parse s.exportText).blocks, b'.heading = b.heading →
          ((s'.apply s.exportText).2.graph.KeepsApart b ↔ ¬s.graph.Mislabels n) := by
  intro b
  have hlabels : (b.labels.map (Option.map fold)).Nodup ↔ ¬s.graph.Mislabels n :=
    h.morphsApart.nodup_labels_iff h.framed hn
  have hb : b ∈ s.graph.toDocument.blocks := List.mem_map_of_mem (Table.mem_values.mpr ⟨o, hn⟩)
  refine ⟨fun p m hm => ?_, hlabels, fun s' h' => ⟨?_, fun b' hb' hheading => ?_⟩⟩
  · exact h.morphsApart.fenceLabel_eq_none_iff h.framed hn (List.mem_of_getElem? hm)
  · exact (keepsApart_applyDocument_iff h' h.morphsApart.spelled_toDocument hb).trans hlabels
  · have hread := keepsApart_applyDocument_iff h' (Document.label_of_parse s.exportText) hb'
    rw [show b'.labels = b.labels from congrArg (·.2.2) hheading] at hread
    exact (Graph.keepsApart_congr hheading).symm.trans (hread.trans hlabels)

def crowId : NodeId := ⟨"local/default/crow"⟩

def henId : NodeId := ⟨"local/default/hen"⟩

def roosting : List Operation :=
  [.resolve "Crow" none, .resolve "Hen" none,
    .change (.addMorph crowId none none), .change (.addMorph crowId (some "morph 1") none),
    .change (.addMorph henId (some "Morph 1") none), .change (.addMorph henId none none)]

def roost : Session := roosting.foldl Session.after (fresh {} ⟨{}, {}⟩)

/-- The second morph of the crow is named like the first one is labelled; the hen's two are told apart. -/
theorem keepsApart_roost : roost.Attainable ∧ ∃ crow hen,
    roost.graph.nodes.get? crowId = some crow ∧ roost.graph.nodes.get? henId = some hen ∧
      ¬(feeder.apply roost.exportText).2.graph.KeepsApart (roost.graph.nodeBlock crow) ∧
      (feeder.apply roost.exportText).2.graph.KeepsApart (roost.graph.nodeBlock hen) := by
  have hattainable : roost.Attainable := ⟨{}, ⟨{}, {}⟩, run_foldl (fun _ _ _ => trivial) _⟩
  have hheadings : (roost.graph.nodes.get? crowId).map (fun n => (roost.graph.nodeBlock n).heading) =
        some ("Crow", none, [some "morph 1", some "morph 1"]) ∧
      (roost.graph.nodes.get? henId).map (fun n => (roost.graph.nodeBlock n).heading) =
        some ("Hen", none, [some "Morph 1", some "morph 2"]) := by decide +kernel
  have hread : (∃ b ∈ (Document.parse roost.exportText).blocks,
        b.heading = ("Crow", none, [some "morph 1", some "morph 1"])) ∧
      ∃ b ∈ (Document.parse roost.exportText).blocks, b.heading = ("Hen", none, [some "Morph 1", some "morph 2"]) := by
    decide +kernel
  obtain ⟨crow, hcrow, hcrowHeading⟩ := Option.map_eq_some_iff.mp hheadings.1
  obtain ⟨hen, hhen, hhenHeading⟩ := Option.map_eq_some_iff.mp hheadings.2
  obtain ⟨⟨b, hb, hheading⟩, b', hb', hheading'⟩ := hread
  obtain ⟨-, hlabels, hexport⟩ := keepsApart_export_iff hattainable hcrow
  obtain ⟨-, hlabels', hexport'⟩ := keepsApart_export_iff hattainable hhen
  refine ⟨hattainable, crow, hen, hcrow, hhen, ?_, ?_⟩
  · rw [(hexport feeder attainable_feeder).2 b hb (hheading.trans hcrowHeading.symm), ← hlabels,
      show (roost.graph.nodeBlock crow).labels = _ from congrArg (·.2.2) hcrowHeading]
    decide +kernel
  · rw [(hexport' feeder attainable_feeder).2 b' hb' (hheading'.trans hhenHeading.symm), ← hlabels',
      show (roost.graph.nodeBlock hen).labels = _ from congrArg (·.2.2) hhenHeading]
    decide +kernel

end Session

end Morphology
