import Morphology.Proofs.Export.Ledger

/-! A ledger read out and entered again. The passages of its accounts, in any order, build the ledger up from
nothing: the accounts whose passage is over are complete, and the others are empty or not there yet. -/

namespace Morphology

open Text

namespace Ledger

/-- An entry in the words of a document, its target under the name of the account. -/
def statement (a : Ledger) : Entry → Statement
  | .relation x m => .relation
      { subjectQuantifier := m.subjectQuantifier
        adverb := m.adverb
        name := x.name
        targetQuantifier := m.objectQuantifier
        targetQualifier := (a x.target).bind (·.qualifier)
        targetName := ((a x.target).map (·.name)).getD ""
        modality := m.modality }
  | .attr name value _ m => .attr ⟨name, m.adverb, value, m.unit, m.modality⟩

def saying (a : Ledger) (c : Account) (i : Nat) : Saying :=
  ((c.page i).name, ((c.page i).keys.filterMap c.entry).map a.statement)

/-- One saying for each page; an empty first page is left out. -/
def sayings (a : Ledger) (c : Account) (n : Nat) : List Saying :=
  ((List.range n).filter fun i => !(i == 0 && (c.page i).isEmpty)).map (a.saying c)

def passage (a : Ledger) (c : Account) : Passage := ⟨c.name, c.qualifier, a.sayings c c.size⟩

end Ledger

/-! ## One account -/

namespace Page

theorem foldl_insert_relations {p : Page} {xs : List RelationKey} (h : (p.relations ++ xs).Nodup) :
    (xs.map .relation).foldl insert p = { p with relations := p.relations ++ xs } := by
  induction xs generalizing p with
  | nil => simp
  | cons x xs ih =>
    have hnot : x ∉ p.relations := fun hin => (List.nodup_append.mp h).2.2 x hin x List.mem_cons_self rfl
    have hinsert : p.insert (.relation x) = { p with relations := p.relations ++ [x] } := by
      simp [insert, contains, hnot]
    rw [List.map_cons, List.foldl_cons, hinsert, ih (by simpa using h)]
    simp

theorem foldl_insert_attributes {p : Page} {xs : List String} (h : (p.attributes ++ xs).Nodup) :
    (xs.map .attr).foldl insert p = { p with attributes := p.attributes ++ xs } := by
  induction xs generalizing p with
  | nil => simp
  | cons x xs ih =>
    have hnot : x ∉ p.attributes := fun hin => (List.nodup_append.mp h).2.2 x hin x List.mem_cons_self rfl
    have hinsert : p.insert (.attr x) = { p with attributes := p.attributes ++ [x] } := by
      simp [insert, contains, hnot]
    rw [List.map_cons, List.foldl_cons, hinsert, ih (by simpa using h)]
    simp

theorem foldl_insert_keys {p : Page} (h : p.Sound) : p.keys.foldl insert { name := p.name } = p := by
  rw [keys, List.foldl_append, foldl_insert_relations (by simpa using h.relations),
    foldl_insert_attributes (by simpa using h.attributes)]
  rfl

theorem mem_keys {p : Page} {x : EdgeKey} : x ∈ p.keys ↔ p.contains x = true := by
  cases x <;> simp [keys, contains]

theorem eq_blank {p : Page} (hname : p.name = none) (hempty : p.isEmpty = true) : p = {} := by
  obtain ⟨name, relations, attributes⟩ := p
  simp_all [isEmpty]

end Page

namespace Account

section

variable {c : Account} {i : Nat} (es : List Entry)

theorem page_foldl_post (j : Nat) :
    (es.foldl (fun c e => c.post i e) c).page j =
      if j = i then (es.map Entry.key).foldl Page.insert (c.page i) else c.page j := by
  induction es generalizing c with
  | nil => simp +contextual
  | cons e es ih =>
    rw [List.foldl_cons, ih, List.map_cons, List.foldl_cons]
    by_cases hj : j = i <;> simp [hj, post]

theorem entry_foldl_post {entry : EdgeKey → Option Entry} (h : ∀ e ∈ es, entry e.key = some e) (x : EdgeKey) :
    (es.foldl (fun c e => c.post i e) c).entry x = if x ∈ es.map Entry.key then entry x else c.entry x := by
  induction es generalizing c with
  | nil => simp
  | cons e es ih =>
    rw [List.foldl_cons, ih fun e' he' => h e' (List.mem_cons_of_mem _ he'), List.map_cons]
    by_cases hx : x ∈ es.map Entry.key
    · simp only [hx, List.mem_cons, or_true, if_true]
    · by_cases hkey : x = e.key
      · simp [hkey, post, h e List.mem_cons_self]
      · simp only [hx, hkey, List.mem_cons, or_self, if_false, post, Function.update_of_ne (Ne.symm (Ne.symm hkey))]

theorem foldl_post_fields :
    (es.foldl (fun c e => c.post i e) c).name = c.name ∧ (es.foldl (fun c e => c.post i e) c).qualifier = c.qualifier ∧
      (es.foldl (fun c e => c.post i e) c).size = c.size := by
  induction es generalizing c with
  | nil => exact ⟨rfl, rfl, rfl⟩
  | cons e es ih => exact ih

end

/-- The account with its first pages only, and the entries that they cite. -/
def upto (c : Account) (n : Nat) : Account :=
  { c with
    size := max n 1
    page := fun i => if i < n then c.page i else {}
    entry := fun x => if ∃ i < n, (c.page i).contains x = true then c.entry x else none }

theorem upto_zero (c : Account) : c.upto 0 = new c.name c.qualifier := by
  simp [upto, new]

namespace Sound

variable {schema : Schema} {known : NameKey → Prop} {c : Account} (h : c.Sound schema known)

include h

theorem lt_of_contains {i : Nat} {x : EdgeKey} (hx : (c.page i).contains x = true) : i < c.size := by
  by_contra hge
  rw [h.blank (Nat.not_lt.mp hge), Page.not_contains_blank] at hx
  cases hx

theorem upto_size : c.upto c.size = c := by
  have hsize : max c.size 1 = c.size := by
    have := h.size
    omega
  have hpage : (fun i => if i < c.size then c.page i else {}) = c.page := by
    funext i
    split
    · rfl
    · rename_i hi
      exact (h.blank (Nat.not_lt.mp hi)).symm
  have hentry : (fun x => if ∃ i < c.size, (c.page i).contains x = true then c.entry x else none) = c.entry := by
    funext x
    split
    · rfl
    · rename_i hno
      cases he : c.entry x with
      | none => rfl
      | some e =>
        obtain ⟨i, hi⟩ := h.cited.mpr ⟨e, he⟩
        exact absurd ⟨i, h.lt_of_contains hi, hi⟩ hno
  unfold upto
  rw [hsize, hpage, hentry]

theorem entries_spec (i : Nat) :
    ((c.page i).keys.filterMap c.entry).map Entry.key = (c.page i).keys ∧
      ∀ e ∈ (c.page i).keys.filterMap c.entry, c.entry e.key = some e ∧ schema.Admits known e := by
  constructor
  · rw [List.map_filterMap]
    have hkeys : (c.page i).keys.filterMap (fun x => (c.entry x).map Entry.key) = (c.page i).keys.filterMap some := by
      refine List.filterMap_congr fun x hx => ?_
      obtain ⟨e, he⟩ := h.cited.mp ⟨i, Page.mem_keys.mp hx⟩
      rw [he, Option.map_some, (h.keyed he).1]
    rw [hkeys, List.filterMap_some]
  · intro e he
    obtain ⟨x, -, hx⟩ := List.mem_filterMap.mp he
    obtain ⟨rfl, hadmits⟩ := h.keyed hx
    exact ⟨hx, hadmits⟩

theorem turnTo_upto {n : Nat} (hn : n < c.size) :
    (c.upto n).turnTo (c.page n).name = (n, { c.upto n with
      size := n + 1, page := Function.update (c.upto n).page n { name := (c.page n).name } }) := by
  rcases Nat.eq_zero_or_pos n with rfl | hpos
  · have hpage : Function.update (c.upto 0).page 0 {} = (c.upto 0).page := Function.update_eq_self ..
    rw [h.basic, hpage]
    rfl
  · obtain ⟨l, hl, -⟩ := h.named hpos hn
    have hsize : (c.upto n).size = n := max_eq_left hpos
    have hfree : (c.upto n).find? l = none := by
      refine find?_eq_none.mpr fun i hi l' hl' hfold => ?_
      simp only [upto] at hl'
      split at hl'
      · rename_i hlt
        exact hlt.ne (h.distinct hl' hl hfold)
      · cases hl'
    rw [hl, turnTo_added hfree, Account.addPage, hsize]

theorem upto_succ {n : Nat} (hn : n < c.size) :
    ((c.page n).keys.filterMap c.entry).foldl (fun c e => c.post n e) ((c.upto n).turnTo (c.page n).name).2 =
      c.upto (n + 1) := by
  obtain ⟨hkeys, hentries⟩ := h.entries_spec n
  rw [h.turnTo_upto hn]
  obtain ⟨hname, hqualifier, hsize⟩ := foldl_post_fields (i := n) ((c.page n).keys.filterMap c.entry)
  refine Account.ext hname hqualifier (hsize.trans ?_) ?_ ?_
  · simp [upto]
  · funext i
    rw [page_foldl_post, hkeys]
    by_cases hi : i = n
    · subst hi
      simp [upto, Page.foldl_insert_keys (h.page i)]
    · have hiff : i < n + 1 ↔ i < n := by omega
      simp only [hi, if_false, Function.update_of_ne hi, upto, hiff]
  · funext x
    rw [entry_foldl_post _ (fun e he => (hentries e he).1), hkeys]
    have hiff : (∃ i < n + 1, (c.page i).contains x = true) ↔
        x ∈ (c.page n).keys ∨ ∃ i < n, (c.page i).contains x = true := by
      simp only [Page.mem_keys, Nat.lt_succ_iff_lt_or_eq, or_and_right, exists_or, exists_eq_left, or_comm]
    simp only [upto, hiff]
    by_cases hx : x ∈ (c.page n).keys
    · simp only [hx, true_or, if_true]
    · simp only [hx, false_or, if_false]

theorem upto_one (hempty : (c.page 0).isEmpty = true) : c.upto 1 = c.upto 0 := by
  have hblank := Page.eq_blank h.basic hempty
  have hpage : (fun i => if i < 1 then c.page i else {}) = fun _ => {} := by
    funext i
    split
    · rename_i hi
      rw [Nat.lt_one_iff.mp hi, hblank]
    · rfl
  have hno (x : EdgeKey) : ¬∃ i < 1, (c.page i).contains x = true := by
    rintro ⟨i, hi, hx⟩
    rw [Nat.lt_one_iff.mp hi, hblank, Page.not_contains_blank] at hx
    cases hx
  rw [upto_zero, upto, hpage, Account.new]
  simp only [hno, if_false, max_self]

end Sound

end Account

/-! ## The whole ledger -/

namespace Ledger

variable {schema : Schema} {a b : Ledger} {key : NameKey} {c : Account} {done : List NameKey}

namespace Sound

variable (h : a.Sound schema) {e : Entry} (he : schema.Admits a.Known e)

include h he

theorem entry?_statement : schema.entry? (a.statement e) = some e := by
  cases e with
  | relation x m =>
    obtain ⟨⟨d, hd, hname⟩, -, ⟨c, hc⟩, hqualifier, -⟩ := he
    have hkey : NameKey.ofName c.name c.qualifier = x.target := (h.account hc).1
    obtain ⟨adverb, modality, subject, object, qualifier⟩ := m
    simp only [statement, Schema.entry?, hd, hc, Option.map_some, Option.getD_some, Option.bind_some, hkey, hname]
    cases hqualifier
    rfl
  | attr name value typed m =>
    obtain ⟨⟨d, hd, rfl, hcheck⟩, -, -, hquantifier, -⟩ := he
    obtain ⟨unit, adverb, modality, quantifier⟩ := m
    cases hquantifier
    simp [statement, Schema.entry?, hd, hcheck]

theorem texts_statement : ∀ t ∈ (a.statement e).texts, IsProper t := by
  cases e with
  | relation x m =>
    obtain ⟨-, hname, ⟨c, hc⟩, -, htexts⟩ := he
    have hsound := (h.account hc).2
    simp only [RelationModifiers.texts, List.forall_mem_append, Option.mem_toList] at htexts
    obtain ⟨⟨⟨hadverb, hmodality⟩, hsubject⟩, hobject⟩ := htexts
    refine RelationStatement.forall_texts.mpr ⟨hname, ?_, hsubject, hadverb, hobject, ?_, hmodality⟩
    · simpa only [hc, Option.map_some, Option.getD_some] using hsound.name
    · simpa only [hc, Option.bind_some] using hsound.qualifier
  | attr name value typed m =>
    obtain ⟨-, hname, hvalue, -, htexts⟩ := he
    simp only [AttributeModifiers.texts, List.forall_mem_append, Option.mem_toList] at htexts
    obtain ⟨⟨hunit, hadverb⟩, hmodality⟩ := htexts
    exact AttributeStatement.forall_texts.mpr ⟨hname, hvalue, hadverb, hunit, hmodality⟩

end Sound

theorem Sound.passage_spec (h : a.Sound schema) (hc : a key = some c) :
    (a.passage c).Proper ∧ ∀ saying ∈ (a.passage c).sayings, ∀ s ∈ saying.2, (schema.entry? s).isSome := by
  have hsound := (h.account hc).2
  have hstatement {i : Nat} {s : Statement} (hs : s ∈ (a.saying c i).2) :
      ∃ e, schema.Admits a.Known e ∧ a.statement e = s := by
    obtain ⟨e, he, rfl⟩ := List.mem_map.mp hs
    exact ⟨e, ((hsound.entries_spec i).2 e he).2, rfl⟩
  constructor
  · refine ⟨hsound.name, fun q hq => (hsound.qualifier q hq).2, fun saying hsaying => ?_⟩
    obtain ⟨i, hi, rfl⟩ := List.mem_map.mp hsaying
    have hi := List.mem_range.mp (List.mem_of_mem_filter hi)
    refine ⟨fun l (hl : (c.page i).name = some l) => ?_, fun s hs => ?_⟩
    · have hpos : 0 < i := by
        by_contra hzero
        rw [Nat.eq_zero_of_not_pos hzero, hsound.basic] at hl
        cases hl
      obtain ⟨l', hl', hproper⟩ := hsound.named hpos hi
      rw [hl] at hl'
      cases hl'
      exact hproper
    · obtain ⟨e, he, rfl⟩ := hstatement hs
      exact h.texts_statement he
  · intro saying hsaying s hs
    obtain ⟨i, -, rfl⟩ := List.mem_map.mp hsaying
    obtain ⟨e, he, rfl⟩ := hstatement hs
    rw [h.entry?_statement he]
    rfl

/-- What is done is as in `a`, and nothing is said yet of the rest. -/
def Agrees (a : Ledger) (done : List NameKey) (b : Ledger) (k : NameKey) : Prop :=
  (k ∈ done → b k = a k) ∧
    (k ∉ done → b k = none ∨ ∃ c, a k = some c ∧ b k = some (.new c.name c.qualifier))

/-- As before, but that the account of `key` has come to be `c`. -/
structure Stage (a : Ledger) (done : List NameKey) (key : NameKey) (c : Account) (b : Ledger) : Prop where
  here : b key = some c
  elsewhere : ∀ k, k ≠ key → a.Agrees done b k

theorem Agrees.enter (h : ∀ k, k ≠ key → a.Agrees done b k) (ha : a.Sound schema) {t : NameKey} (hc : a t = some c) :
    ∀ k, k ≠ key → a.Agrees done (b.enter c.name c.qualifier) k := by
  obtain ⟨rfl, hsound⟩ := ha.account hc
  rcases enter_cases b c.name c.qualifier with ⟨-, heq⟩ | ⟨hnone, heq⟩
  · rwa [heq]
  · intro k hk
    rw [heq, hsound.name.2.1, collapse?_of_isTidy fun q hq => (hsound.qualifier q hq).tidy]
    by_cases hkt : k = .ofName c.name c.qualifier
    · subst hkt
      refine ⟨fun hdone => ?_, fun _ => Or.inr ⟨c, hc, Function.update_self ..⟩⟩
      rw [(h _ hk).1 hdone] at hnone
      exact absurd (hc.symm.trans hnone) (by simp)
    · simpa only [Agrees, Function.update_of_ne hkt] using h k hk

namespace Stage

variable (ha : a.Sound schema) (h : Stage a done key c b)

include ha h

theorem applyStatement {e : Entry} (he : schema.Admits a.Known e) (i : Nat) :
    Stage a done key (c.post i e) (b.applyStatement schema key i (a.statement e)) := by
  have hhere : b.enterTarget (a.statement e) key = some c := enterTarget_known _ h.here
  have helse : ∀ k, k ≠ key → a.Agrees done (b.enterTarget (a.statement e)) k := by
    cases e with
    | attr name value typed m => exact h.elsewhere
    | relation x m =>
      obtain ⟨t, ht⟩ := he.2.2.1
      simp only [statement, enterTarget, ht, Option.map_some, Option.getD_some, Option.bind_some]
      exact Agrees.enter h.elsewhere ha ht
  rw [Ledger.applyStatement, ha.entry?_statement he]
  simp only [modify_eq hhere]
  refine ⟨Function.update_self .., fun k hk => ?_⟩
  simpa only [Agrees, Function.update_of_ne hk] using helse k hk

theorem applyStatements {es : List Entry} (hes : ∀ e ∈ es, schema.Admits a.Known e) (i : Nat) :
    Stage a done key (es.foldl (fun c e => c.post i e) c)
      ((es.map a.statement).foldl (Ledger.applyStatement schema key i) b) := by
  induction es generalizing b c with
  | nil => exact h
  | cons e es ih =>
    exact ih (h.applyStatement ha (hes e List.mem_cons_self) i) fun e' he' => hes e' (List.mem_cons_of_mem _ he')

end Stage

theorem Stage.applySaying {n : Nat} (ha : a.Sound schema) (hc : a key = some c) (hn : n < c.size)
    (h : Stage a done key (c.upto n) b) :
    Stage a done key (c.upto (n + 1)) (b.applySaying schema key (a.saying c n)) := by
  obtain ⟨-, hsound⟩ := ha.account hc
  have hturned : Stage a done key ((c.upto n).turnTo (c.page n).name).2
      (Function.update b key (some ((c.upto n).turnTo (c.page n).name).2)) := by
    refine ⟨Function.update_self .., fun k hk => ?_⟩
    simpa only [Agrees, Function.update_of_ne hk] using h.elsewhere k hk
  have hposted := hturned.applyStatements ha (fun e he => ((hsound.entries_spec n).2 e he).2) n
  rw [applySaying_eq h.here, ← hsound.upto_succ hn]
  have hpage : ((c.upto n).turnTo (c.page n).name).1 = n := by rw [hsound.turnTo_upto hn]
  simp only [saying, hpage]
  exact hposted

theorem Stage.applySayings (ha : a.Sound schema) (hc : a key = some c) (h : Stage a done key (c.upto 0) b) {n : Nat}
    (hn : n ≤ c.size) : Stage a done key (c.upto n) ((a.sayings c n).foldl (Ledger.applySaying schema key) b) := by
  induction n with
  | zero => exact h
  | succ n ih =>
    have ih := ih (Nat.le_of_succ_le hn)
    have hsayings : a.sayings c (n + 1) =
        a.sayings c n ++ if n == 0 && (c.page n).isEmpty then [] else [a.saying c n] := by
      rw [sayings, List.range_succ, List.filter_append, List.map_append, sayings]
      cases hhidden : n == 0 && (c.page n).isEmpty <;>
        simp only [List.filter_cons, List.filter_nil, hhidden, Bool.not_false, Bool.not_true, Bool.false_eq_true,
          if_true, if_false, List.map_cons, List.map_nil]
    rw [hsayings]
    split
    -- An empty first page has no saying, and there is nothing of it to enter either.
    · rename_i hhidden
      simp only [Bool.and_eq_true, beq_iff_eq] at hhidden
      obtain ⟨rfl, hempty⟩ := hhidden
      rw [List.append_nil, (ha.account hc).2.upto_one hempty]
      exact ih
    · rw [List.foldl_append]
      exact ih.applySaying ha hc hn

theorem applyPassage_agrees (ha : a.Sound schema) (hc : a key = some c) (hnew : key ∉ done)
    (h : ∀ k, a.Agrees done b k) (k : NameKey) :
    a.Agrees (key :: done) (b.applyPassage schema (a.passage c)) k := by
  obtain ⟨rfl, hsound⟩ := ha.account hc
  have hstart : Stage a done c.key (c.upto 0) (b.enter c.name c.qualifier) := by
    rw [Account.upto_zero]
    rcases enter_cases b c.name c.qualifier with ⟨⟨c', hc'⟩, heq⟩ | ⟨hnone, heq⟩
    -- The account was entered before its own passage, as the target of a relation.
    · rw [heq]
      refine ⟨?_, fun k _ => h k⟩
      rcases (h c.key).2 hnew with hnone | ⟨c₀, hc₀, hb⟩
      · exact absurd (hc'.symm.trans hnone) (by simp)
      · rw [hc] at hc₀
        cases hc₀
        exact hb
    · rw [heq, hsound.name.2.1, collapse?_of_isTidy fun q hq => (hsound.qualifier q hq).tidy]
      refine ⟨Function.update_self .., fun k hk => ?_⟩
      have hk' : k ≠ .ofName c.name c.qualifier := hk
      simpa only [Agrees, Function.update_of_ne hk'] using h k
  have hend := hstart.applySayings ha hc (Nat.le_refl _)
  rw [hsound.upto_size] at hend
  by_cases hk : k = c.key
  · subst hk
    exact ⟨fun _ => hend.here.trans hc.symm, fun hnot => absurd List.mem_cons_self hnot⟩
  · have hold := hend.elsewhere k hk
    refine ⟨fun hdone => hold.1 ?_, fun hnot => hold.2 fun hdone => hnot (List.mem_cons_of_mem _ hdone)⟩
    exact (List.mem_cons.mp hdone).resolve_left hk

theorem applyPassages_agree (ha : a.Sound schema) {cs : List Account} (hcs : ∀ c ∈ cs, a c.key = some c)
    (hnodup : (cs.map Account.key).Nodup) (hnew : ∀ c ∈ cs, c.key ∉ done) (h : ∀ k, a.Agrees done b k) :
    ∃ done', (∀ c ∈ cs, c.key ∈ done') ∧ (∀ k ∈ done, k ∈ done') ∧
      ∀ k, a.Agrees done' ((cs.map a.passage).foldl (applyPassage schema) b) k := by
  -- On the accounts still to come: each passage moves one key to the ones that are done.
  induction cs generalizing done b with
  | nil => exact ⟨done, by simp, fun _ hk => hk, h⟩
  | cons c cs ih =>
    obtain ⟨hhead, htail⟩ := List.nodup_cons.mp hnodup
    have hstep := applyPassage_agrees ha (hcs c List.mem_cons_self) (hnew c List.mem_cons_self) h
    have hnew' : ∀ c' ∈ cs, c'.key ∉ c.key :: done := by
      intro c' hc' hmem
      rcases List.mem_cons.mp hmem with heq | hmem
      · exact hhead (heq ▸ List.mem_map_of_mem hc')
      · exact hnew c' (List.mem_cons_of_mem _ hc') hmem
    obtain ⟨done', hin, hkeep, hend⟩ := ih (fun c' hc' => hcs c' (List.mem_cons_of_mem _ hc')) htail hnew' hstep
    refine ⟨done', fun c' hc' => ?_, fun k hk => hkeep k (List.mem_cons_of_mem _ hk), hend⟩
    rcases List.mem_cons.mp hc' with rfl | hc'
    · exact hkeep _ List.mem_cons_self
    · exact hin c' hc'

/-- Read out account by account, a ledger is entered again as it is. -/
theorem replay (ha : a.Sound schema) {cs : List Account} (hcs : ∀ c ∈ cs, a c.key = some c)
    (hall : ∀ k c, a k = some c → c ∈ cs) (hnodup : (cs.map Account.key).Nodup) :
    (cs.map a.passage).foldl (applyPassage schema) empty = a := by
  have hstart : ∀ k, a.Agrees [] empty k := fun k => ⟨fun hk => absurd hk List.not_mem_nil, fun _ => Or.inl rfl⟩
  obtain ⟨done, hin, -, hend⟩ := applyPassages_agree ha hcs hnodup (by simp) hstart
  funext k
  by_cases hk : k ∈ done
  · exact (hend k).1 hk
  · have hnone : a k = none := by
      cases hak : a k with
      | none => rfl
      | some c => exact absurd ((ha.account hak).1 ▸ hin c (hall k c hak)) hk
    rcases (hend k).2 hk with heq | ⟨c, hc, -⟩
    · exact heq.trans hnone.symm
    · rw [hnone] at hc
      cases hc

end Ledger

end Morphology
