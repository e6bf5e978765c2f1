import Mathlib.Data.List.Forall2
import Morphology.Console.Dialogue
import Morphology.Proofs.Document.Rows

/-! Documents typed into a console. A line that is no command goes into the buffer with one break behind it, whether it
came with its break or without. The buffer then holds the lines of the document, and is read as the same document. -/

namespace Morphology

namespace Chars

variable {c : Char} {cs rest : List Char}

theorem toNat_ofNat_or (n : Nat) : (Char.ofNat n).toNat = n ∨ (Char.ofNat n).toNat = 0 := by
  rw [Char.ofNat]
  by_cases hn : n.isValidChar
  · rw [dif_pos hn]
    exact .inl rfl
  · rw [dif_neg hn]
    exact .inr rfl

theorem lowercaseAscii_eq_backslash (h : lowercaseAscii c = '\\') : c = '\\' := by
  unfold lowercaseAscii at h
  split at h
  · rename_i hcapital
    have hle : 65 ≤ c.toNat := hcapital.1
    have hnat : (Char.ofNat (c.toNat + 32)).toNat = 92 := by rw [h]; rfl
    have hsame := toNat_ofNat_or (c.toNat + 32)
    omega
  · exact h

/-- No capital has the backslash for its small form. -/
theorem smallForm_ne_backslash {n : Nat} : ∀ run ∈ Text.capitalRuns, smallForm n run ≠ some '\\' := by
  intro run hrun hsmall
  have hgreater : ∀ run ∈ Text.capitalRuns, 92 < run.small := by decide +kernel
  have hgreater := hgreater run hrun
  unfold smallForm at hsmall
  split at hsmall
  · have hnat : (Char.ofNat (run.small + (n - run.first))).toNat = 92 := by rw [Option.some.inj hsmall]; rfl
    have hsame := toNat_ofNat_or (run.small + (n - run.first))
    omega
  · cases hsmall

theorem lowercaseChar_eq_backslash (h : lowercaseChar c ++ cs = '\\' :: rest) : c = '\\' := by
  unfold lowercaseChar at h
  split at h
  · exact lowercaseAscii_eq_backslash (List.cons.inj h).1
  · split at h
    · cases h
    · obtain ⟨hform, -⟩ := List.cons.inj h
      cases hfound : Text.capitalRuns.findSome? (smallForm c.toNat) with
      | none => rwa [hfound] at hform
      | some d =>
        rw [hfound, Option.getD_some] at hform
        obtain ⟨run, hrun, hsmall⟩ := List.exists_of_findSome?_eq_some hfound
        exact absurd (hform ▸ hsmall) (smallForm_ne_backslash run hrun)

theorem head_of_lowercase (h : lowercase cs = '\\' :: rest) : ['\\'] <+: cs := by
  cases cs with
  | nil => cases h
  | cons c cs =>
    unfold lowercase lowercaseAfter at h
    split at h
    · split at h <;> simp at h
    · rw [lowercaseChar_eq_backslash h]
      exact List.prefix_append ['\\'] cs

end Chars

namespace Console

open Text

/-- A line that is neither a command nor one of the words that are. -/
structure IsText (line : String) : Prop where
  plain : isCommand line = false
  word : lowercase (trim line) ∉ ["quit", "exit", "help", "verbose"]

/-- A row of a text as it is typed, with its break or without. -/
def Spells (line row : String) : Prop := line = row ∨ line = row ++ "\n"

variable {files : Files} {c : Console} {line row text : String} {lines rows : List String}

theorem not_backslash (h : isCommand line = false) (word : String) (hword : word.toList.head? = some '\\') :
    lowercase (trim line) ≠ word := by
  intro heq
  obtain ⟨rest, hrest⟩ := List.head?_eq_some_iff.mp hword
  have hlower : Chars.lowercase (trim line).toList = '\\' :: rest := by
    rw [← hrest, ← heq, lowercase, String.toList_ofList]
  have hcommand : isCommand line = true := List.isPrefixOf_iff_prefix.mpr (Chars.head_of_lowercase hlower)
  rw [h] at hcommand
  cases hcommand

theorem IsText.ofLine?_eq_none (h : IsText line) : Word.ofLine? line = none := by
  have hquit := not_backslash h.plain "\\q" rfl
  have hhelp := not_backslash h.plain "\\h" rfl
  have hword := h.word
  simp only [List.mem_cons, List.not_mem_nil, or_false, not_or] at hword
  obtain ⟨hquit', hexit, hhelp', hverbose⟩ := hword
  simp [Word.ofLine?, hquit, hhelp, hquit', hexit, hhelp', hverbose]

theorem feed_text (h : IsText line) (c : Console) : c.feed files line = ⟨true, {}, c.bufferLine line⟩ := by
  rw [feed, h.ofLine?_eq_none, h.plain]
  rfl

theorem trim_spells (h : Spells line row) : trim line = trim row := by
  rcases h with rfl | rfl
  · rfl
  · rw [trim, String.toList_append]
    exact congrArg String.ofList (Chars.trim_concat (by decide) row.toList)

theorem IsText.spells (h : IsText row) (hline : Spells line row) : IsText line := by
  have htrim := trim_spells hline
  exact ⟨by rw [isCommand, htrim]; exact h.plain, by rw [htrim]; exact h.word⟩

theorem dropLineEnd_row (h : IsRow row) : dropLineEnd row = row := by
  have hlast : ∀ d ∈ row.toList.getLast?, (d == '\r' || d == '\n') = false := by
    intro d hd
    obtain ⟨before, hrow⟩ := List.getLast?_eq_some_iff.mp hd
    have hbreak : d ≠ '\n' := by
      rintro rfl
      exact h.1 (List.mem_of_getLast? hd)
    have hreturn : d ≠ '\r' := by
      rintro rfl
      exact h.2 ⟨before, hrow.symm⟩
    simp [hbreak, hreturn]
  rw [dropLineEnd, Chars.dropEndWhile_of_getLast hlast, String.ofList_toList]

theorem dropLineEnd_spells (h : IsRow row) (hline : Spells line row) : dropLineEnd line = row := by
  rcases hline with rfl | rfl
  · exact dropLineEnd_row h
  · rw [dropLineEnd, String.toList_append]
    have hdrop := Chars.dropEndWhile_concat (p := fun d => d == '\r' || d == '\n') (c := '\n') (by rfl) row.toList
    exact (congrArg String.ofList hdrop).trans (dropLineEnd_row h)

/-- Both ways of cutting a text into lines come to the same rows. -/
theorem spells_inputLines (h : '\r' ∉ text.toList) : List.Forall₂ Spells (inputLines text) (Text.lines text) := by
  have hparts : ∀ part ∈ Chars.pieces (· == '\n') text.toList, Chars.dropReturn part = part := by
    intro part hpart
    refine Chars.dropReturn_of_not_suffix fun hend => h ?_
    exact (Chars.mem_pieces hpart).1.subset (hend.subset List.mem_cons_self)
  unfold inputLines Text.lines Chars.lines
  generalize Chars.pieces (· == '\n') text.toList = parts at hparts
  fun_induction Chars.finishLines parts with
  | case1 => exact .nil
  | case2 last hempty =>
    obtain rfl : last = [] := List.isEmpty_iff.mp hempty
    exact .nil
  | case3 last hne =>
    cases last with
    | nil => exact absurd rfl hne
    | cons d ds => exact .cons (.inl rfl) .nil
  | case4 part rest hrest ih =>
    obtain ⟨hpart, hparts⟩ := List.forall_mem_cons.mp hparts
    obtain ⟨next, more, rfl⟩ := List.exists_cons_of_ne_nil hrest
    dsimp only
    rw [List.dropLast_cons_of_ne_nil (List.cons_ne_nil next more), List.getLast?_cons_cons, hpart]
    exact .cons (.inr String.ofList_append) (ih hparts)

theorem isText_of_spells (hrow : ∀ row ∈ rows, IsText row) (hlines : List.Forall₂ Spells lines rows) :
    ∀ line ∈ lines, IsText line := by
  induction hlines with
  | nil => simp
  | @cons line row lines rows hline _ ih =>
    obtain ⟨htext, hrows⟩ := List.forall_mem_cons.mp hrow
    exact List.forall_mem_cons.mpr ⟨htext.spells hline, ih hrows⟩

theorem typed_eq (hrow : ∀ row ∈ rows, IsText row ∧ IsRow row) (hlines : List.Forall₂ Spells lines rows) (c : Console) :
    lines.foldl (fun c line => (c.feed files line).console) c = { c with buffer := c.buffer ++ ofRows rows } := by
  induction hlines generalizing c with
  | nil => simp
  | @cons line row lines rows hline _ ih =>
    obtain ⟨⟨htext, hrow⟩, hrows⟩ := List.forall_mem_cons.mp hrow
    rw [List.foldl_cons, feed_text (htext.spells hline), ih hrows, bufferLine, dropLineEnd_spells hrow hline]
    simp [String.append_assoc]

/-- The rows of a text with a break behind each are the same document. -/
theorem parse_ofRows (h : ∀ row ∈ Text.lines text, IsRow row) :
    Document.parse (ofRows (Text.lines text)) = Document.parse text := by
  have hlines : Chars.lines (ofRows (Text.lines text)).toList = Chars.lines text.toList := by
    rw [lines_ofRows h, Text.lines, List.map_map]
    exact (List.map_congr_left fun line _ => String.toList_ofList).trans (List.map_id _)
  have hsource : SourceLine.ofText (ofRows (Text.lines text)) = SourceLine.ofText text := by
    rw [SourceLine.ofText, hlines, SourceLine.ofText]
  rw [Document.parse, hsource, Document.parse]

theorem isRow_lines (h : '\r' ∉ text.toList) : ∀ row ∈ Text.lines text, IsRow row := by
  intro row hrow
  obtain ⟨line, hline, rfl⟩ := List.mem_map.mp hrow
  obtain ⟨hin, hbreak⟩ := Chars.mem_lines hline
  rw [IsRow, String.toList_ofList]
  exact ⟨hbreak, fun hend => h (hin.subset (hend.subset List.mem_cons_self))⟩

theorem runScript_ofRows (h : ∀ row ∈ Text.lines text, IsRow row) (c : Console) :
    c.runScript (ofRows (Text.lines text)) = c.runScript text := by
  rw [runScript, Session.apply, parse_ofRows h, runScript, Session.apply]

theorem execute_go (files : Files) (c : Console) : c.execute files "\\go" = c.go := by
  have hcommand : splitCommand "\\go" = ("\\go", "") := by decide +kernel
  rw [execute, hcommand]
  rfl

/-- A document typed into an empty console, line by line, and then applied is applied as it is: with the same report, in
the same state, and with nothing left in the buffer. -/
theorem go_typed (files : Files) (c : Console) (text : String) (lines : List String) (hbuffer : c.buffer = "")
    (hreturn : '\r' ∉ text.toList) (htext : ∀ line ∈ Text.lines text, IsText line)
    (hlines : lines = Text.lines text ∨ lines = inputLines text) :
    let typed := lines.foldl (fun c line => (c.feed files line).console) c
    let applied := c.runScript text
    (∀ line ∈ lines, ∀ c' : Console, (c'.feed files line).goesOn = true) ∧
      { typed with buffer := "" }.runScript typed.buffer = applied ∧
      typed.execute files "\\go" = ({ result := .ok (c.describe applied.1) }, applied.2) ∧
      applied.2.buffer = "" := by
  intro typed applied
  have hrows : ∀ row ∈ Text.lines text, IsText row ∧ IsRow row := fun row hrow =>
    ⟨htext row hrow, isRow_lines hreturn row hrow⟩
  have hspells : List.Forall₂ Spells lines (Text.lines text) := by
    rcases hlines with rfl | rfl
    · exact List.forall₂_same.mpr fun _ _ => .inl rfl
    · exact spells_inputLines hreturn
  have htyped : typed = { c with buffer := ofRows (Text.lines text) } := by
    rw [← String.empty_append (s := ofRows (Text.lines text)), ← hbuffer]
    exact typed_eq hrows hspells c
  have hgo : { typed with buffer := "" }.runScript typed.buffer = applied := by
    have hempty : { typed with buffer := "" } = c := by rw [htyped, ← hbuffer]
    rw [hempty, htyped]
    exact runScript_ofRows (isRow_lines hreturn) c
  refine ⟨?_, hgo, ?_, hbuffer⟩
  · intro line hline c'
    rw [feed_text (isText_of_spells htext hspells line hline)]
  · rw [execute_go, go, hgo]
    rfl

def grainText : String := "# crow\n\nIt caws.\n:::cnl\n\n  <eats> grain\n:::"

/-- Blank lines, blanks before a statement and a missing last break make no difference. -/
theorem go_grainText :
    let schema : Schema := Schema.putRelationType ⟨{}, {}⟩ { name := "eats" }
    let c : Console := { session := ⟨{}, schema, Graph.empty (Settings.space {})⟩ }
    let typed := (inputLines grainText).foldl (fun c line => (c.feed (fun _ => .error "") line).console) c
    typed.buffer ≠ grainText ∧ (c.runScript grainText).1.applied.length = 1 ∧
      typed.execute (fun _ => .error "") "\\go" =
        ({ result := .ok (c.describe (c.runScript grainText).1) }, (c.runScript grainText).2) := by
  intro schema c typed
  have htext : ∀ line ∈ Text.lines grainText, IsText line := by
    intro line hline
    have hall : ∀ line ∈ Text.lines grainText, isCommand line = false ∧
        lowercase (trim line) ∉ ["quit", "exit", "help", "verbose"] := by decide +kernel
    exact ⟨(hall line hline).1, (hall line hline).2⟩
  have hgo := go_typed (fun _ => .error "") c grainText _ rfl (by decide +kernel) htext (.inr rfl)
  exact ⟨by decide +kernel, by decide +kernel, hgo.2.2.1⟩

end Console

end Morphology
