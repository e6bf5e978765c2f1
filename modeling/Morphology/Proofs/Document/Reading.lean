import Mathlib.Data.List.Chain
import Mathlib.Data.List.TakeWhile
import Morphology.Proofs.Document.Layout

/-! Whatever text is read, the document is legible: the classes of its lines are those that its parts need. -/

namespace Morphology

open Chars Text

theorem Line.collapse_of_header? {cs name : List Char} {qualifier : Option (List Char)}
    (h : header? cs = some (name, qualifier)) :
    name ≠ [] ∧ collapse name = name ∧ ∀ q ∈ qualifier, collapse q = q := by
  unfold header? at h
  split at h
  · split at h
    · split at h
      · cases h
      · split at h
        · cases h
        · rename_i hne
          cases h
          refine ⟨hne, collapse_collapse _, fun q hq => ?_⟩
          obtain ⟨q', -, rfl⟩ := Option.map_eq_some_iff.mp hq
          exact collapse_collapse q'
    · cases h
  · cases h

theorem Line.collapse_of_fenceOpening? {cs label : List Char} (h : fenceOpening? cs = some (some label)) :
    label ≠ [] ∧ collapse label = label := by
  unfold fenceOpening? at h
  split at h
  · cases h
  · split at h
    · cases h
    · cases h
    · split at h
      · simp only [Option.some.injEq] at h
        split at h
        · cases h
        · rename_i hne
          cases h
          exact ⟨hne, collapse_collapse _⟩
      · cases h

namespace Document

open SourceLine

theorem legible_of_fenceLine {l : SourceLine} {n : Nat} {s : Statement} (h : l.fenceLine = .statement n s) :
    s.Legible := by
  unfold fenceLine at h
  split at h
  · cases h
  · split at h
    · rename_i hp
      cases h
      exact Statement.legible_of_parse hp
    · cases h

theorem fenceLine_legible {l : SourceLine} (hrow : IsRow l.text) (hheader : l.isHeader = false)
    (hclose : l.closesFence = false) : l.fenceLine.Legible := by
  unfold fenceLine
  split
  · trivial
  · rename_i hblank
    cases hp : Statement.parse l.text l.number with
    | ok s => exact Statement.legible_of_parse hp
    | error e =>
      have hplain : Line.header? l.text.toList = none := by simpa [isHeader, SourceLine.header?] using hheader
      refine ⟨hrow, by simpa using hblank, hplain, hclose, fun line s hs => ?_⟩
      rw [(Statement.parse_eq_ok_congr line l.number).mp hs] at hp
      cases hp

theorem isFence_head {ls : List SourceLine} (h : ∀ m ∈ ls.head?, m.opensFence = true) :
    ∀ s ∈ (segmentsOf ls).head?, s.isFence = true := by
  cases ls with
  | nil =>
    rw [segmentsOf]
    simp
  | cons l rest =>
    obtain ⟨label, hlabel⟩ := Option.isSome_iff_exists.mp (h l rfl)
    rw [segmentsOf, hlabel]
    simp [Segment.isFence]

theorem isTidy_label {row : List Char} {label : Option (List Char)} (h : Line.fenceOpening? row = some label) :
    ∀ text ∈ label.map String.ofList, IsTidy text := by
  intro text htext
  obtain ⟨cs, rfl, rfl⟩ := Option.map_eq_some_iff.mp htext
  rw [isTidy_iff, String.toList_ofList]
  exact Line.collapse_of_fenceOpening? h

theorem isTidy_name {row name : List Char} {qualifier : Option (List Char)}
    (h : Line.header? row = some (name, qualifier)) : IsTidy (String.ofList name) := by
  obtain ⟨hne, htidy, -⟩ := Line.collapse_of_header? h
  rw [isTidy_iff, String.toList_ofList]
  exact ⟨hne, htidy⟩

theorem segmentsOf_legible {ls : List SourceLine} (h : ∀ l ∈ ls, IsRow l.text ∧ l.isHeader = false) :
    (∀ s ∈ segmentsOf ls, s.Legible) ∧
      (segmentsOf ls).IsChain fun s t => s.isFence = true ∨ t.isFence = true := by
  fun_induction segmentsOf ls with
  | case1 => simp
  | case2 l rest label hlabel inner behind ih =>
    have hbehind : ∀ m ∈ behind.drop 1, m ∈ rest := fun m hm =>
      (List.dropWhile_sublist _).subset (List.mem_of_mem_drop hm)
    obtain ⟨hlegible, hapart⟩ := ih fun m hm => h m (List.mem_cons_of_mem _ (hbehind m hm))
    refine ⟨fun s hs => ?_, List.isChain_cons.mpr ⟨fun _ _ => Or.inl rfl, hapart⟩⟩
    rcases List.mem_cons.mp hs with rfl | hs
    · refine ⟨fun text htext => ?_, fun fl hfl => ?_⟩
      · exact isTidy_label hlabel text htext
      · obtain ⟨m, hm, rfl⟩ := List.mem_map.mp hfl
        have hin := h m (List.mem_cons_of_mem _ ((List.takeWhile_sublist _).subset hm))
        exact fenceLine_legible hin.1 hin.2 (of_mem_takeWhile hm)
    · exact hlegible s hs
  | case3 l rest hnone more ih =>
    have hmore : ∀ m ∈ l :: more, m ∈ l :: rest ∧ Line.fenceOpening? m.text.toList = none := by
      intro m hm
      rcases List.mem_cons.mp hm with rfl | hm
      · exact ⟨List.mem_cons_self, hnone⟩
      · refine ⟨List.mem_cons_of_mem _ ((List.takeWhile_sublist _).subset hm), ?_⟩
        simpa [opensFence] using List.mem_takeWhile_imp hm
    obtain ⟨hlegible, hapart⟩ := ih fun m hm =>
      h m (List.mem_cons_of_mem _ ((List.dropWhile_sublist _).subset hm))
    refine ⟨fun s hs => ?_, List.isChain_cons.mpr ⟨fun s hs => Or.inr ?_, hapart⟩⟩
    · rcases List.mem_cons.mp hs with rfl | hs
      · refine ⟨(l :: more).map (·.text), by simp, ?_, fun row hrow => ?_⟩
        · simp [ofRows, SourceLine.prose, Function.comp_def]
        · obtain ⟨m, hm, rfl⟩ := List.mem_map.mp hrow
          have hin := h m (hmore m hm).1
          exact ⟨hin.1, by simpa [isHeader, SourceLine.header?] using hin.2, (hmore m hm).2⟩
      · exact hlegible s hs
    · exact isFence_head (head_dropWhile opensFence rest) s hs

theorem blocksOf_legible {ls : List SourceLine} (h : ∀ l ∈ ls, IsRow l.text) (stop : Nat) :
    ∀ b ∈ blocksOf stop ls, b.Legible := by
  fun_induction blocksOf stop ls with
  | case1 => simp
  | case2 l rest body next name qualifier hheader ih =>
    have ih := ih fun m hm => h m (List.mem_cons_of_mem _ ((List.dropWhile_sublist _).subset hm))
    intro b hb
    rcases List.mem_cons.mp hb with rfl | hb
    · obtain ⟨-, -, hqualifier⟩ := Line.collapse_of_header? hheader
      have hbody : ∀ m ∈ body, IsRow m.text ∧ m.isHeader = false := fun m hm =>
        ⟨h m (List.mem_cons_of_mem _ ((List.takeWhile_sublist _).subset hm)), of_mem_takeWhile hm⟩
      obtain ⟨hsegments, hapart⟩ := segmentsOf_legible hbody
      refine ⟨isTidy_name hheader, fun q hq => ?_, hapart, hsegments⟩
      obtain ⟨q', hq', rfl⟩ := Option.map_eq_some_iff.mp hq
      rw [collapse_eq_iff, String.toList_ofList]
      exact hqualifier q' hq'
    · exact ih b hb
  | case3 l rest next hnone ih =>
    exact ih fun m hm => h m (List.mem_cons_of_mem _ ((List.dropWhile_sublist _).subset hm))

/-- What a fence says: the morph it is about, and the statements. -/
def Said (f : Fence) : Prop := (∀ label ∈ f.label, IsTidy label) ∧ ∀ x ∈ f.statements, x.2.Legible

theorem said_of_segmentsOf {ls : List SourceLine} : ∀ f, .fence f ∈ segmentsOf ls → Said f := by
  fun_induction segmentsOf ls with
  | case1 => simp
  | case2 l rest label hlabel inner behind ih =>
    intro f hf
    rcases List.mem_cons.mp hf with hf | hf
    · cases hf
      refine ⟨fun text htext => ?_, fun x hx => ?_⟩
      · exact isTidy_label hlabel text htext
      · obtain ⟨fl, hfl, hx⟩ := List.mem_filterMap.mp hx
        obtain ⟨m, -, rfl⟩ := List.mem_map.mp hfl
        cases hm : m.fenceLine with
        | statement n s =>
          rw [hm] at hx
          cases hx
          exact legible_of_fenceLine hm
        | invalid n raw => rw [hm] at hx; cases hx
        | blank => rw [hm] at hx; cases hx
    · exact ih f hf
  | case3 l rest hnone more ih =>
    intro f hf
    rcases List.mem_cons.mp hf with hf | hf
    · cases hf
    · exact ih f hf

theorem said_of_blocksOf {stop : Nat} {ls : List SourceLine} :
    ∀ b ∈ blocksOf stop ls, IsTidy b.name ∧ ∀ f ∈ b.fences, Said f := by
  fun_induction blocksOf stop ls with
  | case1 => simp
  | case2 l rest body next name qualifier hheader ih =>
    intro b hb
    rcases List.mem_cons.mp hb with rfl | hb
    · refine ⟨isTidy_name hheader, fun f hf => ?_⟩
      obtain ⟨s, hs, hsf⟩ := List.mem_filterMap.mp hf
      cases s with
      | prose text => cases hsf
      | fence f' =>
        cases hsf
        exact said_of_segmentsOf f hs
    · exact ih b hb
  | case3 l rest next hnone ih => exact ih

theorem parse_said (text : String) : ∀ b ∈ (parse text).blocks, IsTidy b.name ∧ ∀ f ∈ b.fences, Said f :=
  said_of_blocksOf

/-- Labels are read as they are stored. -/
theorem label_of_parse (text : String) : ∀ b ∈ (parse text).blocks, ∀ f ∈ b.fences, collapse? f.label = f.label :=
  fun b hb f hf => collapse?_of_isTidy ((parse_said text b hb).2 f hf).1

theorem parse_legible {text : String} (h : '\r' ∉ text.toList) : (parse text).Legible := by
  obtain ⟨rows, hrows, hisRow⟩ := ofText_rows h
  have hall : ∀ l ∈ ofText text, IsRow l.text := by
    rw [hrows]
    exact fun l hl => hisRow _ (mem_numbered hl)
  refine ⟨⟨((ofText text).takeWhile fun l => !l.isHeader).map (·.text), ?_, fun row hrow => ?_⟩, ?_⟩
  · rw [ofRows, List.map_map]
    rfl
  · obtain ⟨m, hm, rfl⟩ := List.mem_map.mp hrow
    refine ⟨hall m ((List.takeWhile_sublist _).subset hm), ?_⟩
    simpa [isHeader, SourceLine.header?] using List.mem_takeWhile_imp hm
  · exact blocksOf_legible (fun l hl => hall l ((List.dropWhile_sublist _).subset hl)) _

end Document

end Morphology
