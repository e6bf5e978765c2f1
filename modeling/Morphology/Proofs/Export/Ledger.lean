import Mathlib.Logic.Function.Basic
import Morphology.Application
import Morphology.Proofs.Export.Wordy
import Morphology.Proofs.Morph

/-! What documents say, without ids. A ledger keeps an account under each name: the spelling it was first given,
a page for each morph with the edges of that morph, and what was last said of each edge. Applying documents is a
run of entries into the ledger. -/

namespace Morphology

open Text

structure RelationKey where
  name : String
  target : NameKey
  deriving DecidableEq

inductive EdgeKey where
  | relation (key : RelationKey)
  | attr (name : String)
  deriving DecidableEq

/-- What is said of an edge. The qualifier of a relation's target is left to the target. -/
inductive Entry where
  | relation (key : RelationKey) (modifiers : RelationModifiers)
  | attr (name value : String) (typed : Option Value) (modifiers : AttributeModifiers)

def Entry.key : Entry → EdgeKey
  | relation key _ => .relation key
  | attr name _ _ _ => .attr name

structure Page where
  name : Option String := none
  relations : List RelationKey := []
  attributes : List String := []

namespace Page

def contains (p : Page) : EdgeKey → Bool
  | .relation x => p.relations.contains x
  | .attr x => p.attributes.contains x

def insert (p : Page) (x : EdgeKey) : Page :=
  if p.contains x then p
  else
    match x with
    | .relation x => { p with relations := p.relations ++ [x] }
    | .attr x => { p with attributes := p.attributes ++ [x] }

def keys (p : Page) : List EdgeKey := p.relations.map .relation ++ p.attributes.map .attr

def isEmpty (p : Page) : Bool := p.relations.isEmpty && p.attributes.isEmpty

end Page

@[ext]
structure Account where
  name : String
  qualifier : Option String
  size : Nat
  page : Nat → Page
  entry : EdgeKey → Option Entry

namespace Account

def new (name : String) (qualifier : Option String) : Account := ⟨name, qualifier, 1, fun _ => {}, fun _ => none⟩

def key (c : Account) : NameKey := .ofName c.name c.qualifier

def addPage (c : Account) (name : String) : Account :=
  { c with size := c.size + 1, page := Function.update c.page c.size { name := some name } }

def post (i : Nat) (e : Entry) (c : Account) : Account :=
  { c with
    page := Function.update c.page i ((c.page i).insert e.key)
    entry := Function.update c.entry e.key (some e) }

def find? (c : Account) (name : String) : Option Nat :=
  (List.range c.size).find? fun i => (c.page i).name.map fold == some (fold name)

/-- The page of that name, which is added if there is none; without a name, the first one. -/
def turnTo (c : Account) : Option String → Nat × Account
  | none => (0, c)
  | some name =>
    match c.find? name with
    | some i => (i, c)
    | none => (c.size, c.addPage name)

end Account

abbrev Ledger : Type := NameKey → Option Account

abbrev Saying : Type := Option String × List Statement

structure Passage where
  name : String
  qualifier : Option String
  sayings : List Saying

def Fence.saying (f : Fence) : Saying := (f.label, f.statements.map (·.2))

def Block.passage (b : Block) : Passage := ⟨b.name, b.qualifier, b.fences.map Fence.saying⟩

def Schema.entry? (schema : Schema) : Statement → Option Entry
  | .relation s =>
    (schema.relationType? s.name).map fun d =>
      .relation ⟨d.name, .ofName s.targetName s.targetQualifier⟩
        { adverb := s.adverb
          modality := s.modality
          subjectQuantifier := s.subjectQuantifier
          objectQuantifier := s.targetQuantifier }
  | .attr s =>
    (schema.attributeType? s.name).bind fun d =>
      match Grounding.checkValue d s.value 0 with
      | (typed, []) => some (.attr d.name s.value typed ⟨s.unit, s.adverb, s.modality, none⟩)
      | (_, _ :: _) => none

/-- Nothing in the block is an error, and the schema has an entry for every statement. -/
def Schema.Accepts (schema : Schema) (b : Block) : Prop :=
  b.errors = [] ∧ ∀ f ∈ b.fences, ∀ x ∈ f.statements, (schema.entry? x.2).isSome

namespace Ledger

def empty : Ledger := fun _ => none

def enter (a : Ledger) (name : String) (qualifier : Option String) : Ledger :=
  let key := NameKey.ofName name qualifier
  if (a key).isSome then a else Function.update a key (some (.new (collapse name) (collapse? qualifier)))

def enterTarget (a : Ledger) : Statement → Ledger
  | .relation s => a.enter s.targetName s.targetQualifier
  | .attr _ => a

def modify (a : Ledger) (key : NameKey) (f : Account → Account) : Ledger := Function.update a key ((a key).map f)

variable (schema : Schema)

def applyStatement (key : NameKey) (i : Nat) (a : Ledger) (s : Statement) : Ledger :=
  match schema.entry? s with
  | some e => (a.enterTarget s).modify key (·.post i e)
  | none => a

def applySaying (key : NameKey) (a : Ledger) (saying : Saying) : Ledger :=
  match a key with
  | none => a
  | some c =>
    let (i, c) := c.turnTo saying.1
    saying.2.foldl (applyStatement schema key i) (Function.update a key (some c))

def applyPassage (a : Ledger) (p : Passage) : Ledger :=
  p.sayings.foldl (applySaying schema (.ofName p.name p.qualifier)) (a.enter p.name p.qualifier)

end Ledger

/-! ## Ledgers of proper documents -/

/-- Whatever spelling a type is asked for in, it is found under its own, and this is wordy. -/
structure Schema.Wordy (schema : Schema) : Prop where
  relation : ∀ {name d}, schema.relationType? name = some d → IsWordy d.name ∧ fold d.name = fold name
  attr : ∀ {name d}, schema.attributeType? name = some d → IsWordy d.name ∧ fold d.name = fold name

def RelationModifiers.texts (m : RelationModifiers) : List String :=
  m.adverb.toList ++ m.modality.toList ++ m.subjectQuantifier.toList ++ m.objectQuantifier.toList

def AttributeModifiers.texts (m : AttributeModifiers) : List String :=
  m.unit.toList ++ m.adverb.toList ++ m.modality.toList

/-- An entry that some statement of proper texts makes, its target being known. -/
def Schema.Admits (schema : Schema) (known : NameKey → Prop) : Entry → Prop
  | .relation key m => (∃ d, schema.relationType? key.name = some d ∧ d.name = key.name) ∧ IsProper key.name ∧
      known key.target ∧ m.qualifier = none ∧ ∀ t ∈ m.texts, IsProper t
  | .attr name value typed m => (∃ d, schema.attributeType? name = some d ∧ d.name = name ∧
      Grounding.checkValue d value 0 = (typed, [])) ∧ IsProper name ∧ IsProper value ∧ m.quantifier = none ∧
      ∀ t ∈ m.texts, IsProper t

structure Page.Sound (p : Page) : Prop where
  relations : p.relations.Nodup
  attributes : p.attributes.Nodup

structure Account.Sound (schema : Schema) (known : NameKey → Prop) (c : Account) : Prop where
  name : IsProper c.name
  qualifier : ∀ q ∈ c.qualifier, IsProper q
  size : 0 < c.size
  blank : ∀ {i}, c.size ≤ i → c.page i = {}
  basic : (c.page 0).name = none
  named : ∀ {i}, 0 < i → i < c.size → ∃ l, (c.page i).name = some l ∧ IsProper l
  distinct : ∀ {i j l l'}, (c.page i).name = some l → (c.page j).name = some l' → fold l = fold l' → i = j
  page : ∀ i, (c.page i).Sound
  cited : ∀ {x}, (∃ i, (c.page i).contains x = true) ↔ ∃ e, c.entry x = some e
  keyed : ∀ {x e}, c.entry x = some e → e.key = x ∧ schema.Admits known e

def Ledger.Known (a : Ledger) (key : NameKey) : Prop := ∃ c, a key = some c

structure Ledger.Sound (schema : Schema) (a : Ledger) : Prop where
  account : ∀ {key c}, a key = some c → c.key = key ∧ c.Sound schema a.Known

namespace Page

variable {p : Page} {x y : EdgeKey}

theorem contains_insert : (p.insert x).contains y = true ↔ y = x ∨ p.contains y = true := by
  unfold insert
  split
  · rename_i h
    constructor
    · exact Or.inr
    · rintro (rfl | h')
      · exact h
      · exact h'
  · cases x <;> cases y <;> simp [contains, or_comm]

theorem insert_name : (p.insert x).name = p.name := by
  unfold insert
  split
  · rfl
  · cases x <;> rfl

theorem Sound.insert (h : p.Sound) (x : EdgeKey) : (p.insert x).Sound := by
  unfold Page.insert
  split
  · exact h
  · rename_i hnot
    cases x with
    | relation x => exact ⟨Morph.nodup_concat h.relations (by simpa [contains] using hnot), h.attributes⟩
    | attr x => exact ⟨h.relations, Morph.nodup_concat h.attributes (by simpa [contains] using hnot)⟩

theorem sound_blank (name : Option String) : Sound { name := name } := ⟨.nil, .nil⟩

theorem not_contains_blank (name : Option String) : contains { name := name } x = false := by
  cases x <;> rfl

end Page

theorem Schema.Admits.mono {schema : Schema} {known known' : NameKey → Prop} {e : Entry} (h : schema.Admits known e)
    (hk : ∀ key, known key → known' key) : schema.Admits known' e := by
  cases e with
  | relation key m => exact ⟨h.1, h.2.1, hk _ h.2.2.1, h.2.2.2⟩
  | attr name value typed m => exact h

namespace Account

theorem find?_eq_some {c : Account} {name : String} {i : Nat} (h : c.find? name = some i) :
    i < c.size ∧ ∃ l, (c.page i).name = some l ∧ fold l = fold name := by
  have hlt := List.mem_range.mp (List.mem_of_find?_eq_some h)
  have hname := List.find?_some h
  rw [beq_iff_eq, Option.map_eq_some_iff] at hname
  exact ⟨hlt, hname⟩

theorem turnTo_found {c : Account} {name : String} {i : Nat} (h : c.find? name = some i) :
    c.turnTo (some name) = (i, c) := by
  rw [turnTo, h]

theorem turnTo_added {c : Account} {name : String} (h : c.find? name = none) :
    c.turnTo (some name) = (c.size, c.addPage name) := by
  rw [turnTo, h]

theorem find?_eq_none {c : Account} {name : String} :
    c.find? name = none ↔ ∀ i < c.size, ∀ l, (c.page i).name = some l → fold l ≠ fold name := by
  simp [find?, List.find?_eq_none]

namespace Sound

variable {schema : Schema} {known : NameKey → Prop} {c : Account}

theorem new {name : String} {qualifier : Option String} (hname : IsProper name)
    (hqualifier : ∀ q ∈ qualifier, IsProper q) : (Account.new name qualifier).Sound schema known where
  name := hname
  qualifier := hqualifier
  size := Nat.zero_lt_one
  blank _ := rfl
  basic := rfl
  named h h' := absurd h' (Nat.not_lt.mpr h)
  distinct h := by cases h
  page _ := Page.sound_blank none
  cited := by
    simp [Account.new, Page.not_contains_blank]
  keyed h := by cases h

variable (h : c.Sound schema known)

include h

theorem mono {known' : NameKey → Prop} (hk : ∀ key, known key → known' key) : c.Sound schema known' :=
  { h with keyed := fun he => ⟨(h.keyed he).1, (h.keyed he).2.mono hk⟩ }

theorem addPage {name : String} (hname : IsProper name) (hfree : c.find? name = none) :
    (c.addPage name).Sound schema known := by
  have hblank : c.page c.size = {} := h.blank (Nat.le_refl _)
  have hpage (i : Nat) : (c.addPage name).page i = if i = c.size then { name := some name } else c.page i :=
    Function.update_apply ..
  have hlt {i l} (hi : (c.page i).name = some l) : i < c.size := by
    by_contra hge
    rw [h.blank (Nat.not_lt.mp hge)] at hi
    cases hi
  have hnew {i l} (hi : (c.page i).name = some l) : fold l ≠ fold name := find?_eq_none.mp hfree i (hlt hi) l hi
  refine { h with
    size := Nat.succ_pos _, blank := ?_, basic := ?_, named := ?_, distinct := ?_, page := ?_, cited := ?_ }
  · intro i (hi : c.size + 1 ≤ i)
    rw [hpage, if_neg (by omega)]
    exact h.blank (by omega)
  · have hne : 0 ≠ c.size := h.size.ne
    rw [hpage, if_neg hne, h.basic]
  · intro i hpos (hi : i < c.size + 1)
    rw [hpage]
    split
    · exact ⟨name, rfl, hname⟩
    · exact h.named hpos (by omega)
  · intro i j l l' hi hj hfold
    rw [hpage] at hi hj
    split at hi <;> split at hj
    · omega
    · cases hi
      exact absurd hfold.symm (hnew hj)
    · cases hj
      exact absurd hfold (hnew hi)
    · exact h.distinct hi hj hfold
  · intro i
    rw [hpage]
    split
    · exact Page.sound_blank _
    · exact h.page i
  · intro x
    refine Iff.trans ⟨?_, ?_⟩ h.cited
    · rintro ⟨i, hi⟩
      rw [hpage] at hi
      split at hi
      · rw [Page.not_contains_blank] at hi
        cases hi
      · exact ⟨i, hi⟩
    · rintro ⟨i, hi⟩
      refine ⟨i, ?_⟩
      rw [hpage, if_neg]
      · exact hi
      · rintro rfl
        rw [hblank, Page.not_contains_blank] at hi
        cases hi

theorem post {i : Nat} {e : Entry} (hi : i < c.size) (he : schema.Admits known e) :
    (c.post i e).Sound schema known := by
  have hpage (j : Nat) : (c.post i e).page j = if j = i then (c.page i).insert e.key else c.page j :=
    Function.update_apply ..
  have hname (j : Nat) : ((c.post i e).page j).name = (c.page j).name := by
    rw [hpage]
    split
    · rename_i hj
      rw [hj, Page.insert_name]
    · rfl
  have hentry (x : EdgeKey) : (c.post i e).entry x = if x = e.key then some e else c.entry x :=
    Function.update_apply ..
  refine { h with blank := ?_, basic := ?_, named := ?_, distinct := ?_, page := ?_, cited := ?_, keyed := ?_ }
  · intro j (hj : c.size ≤ j)
    rw [hpage, if_neg (by omega)]
    exact h.blank hj
  · rw [hname, h.basic]
  · intro j hpos hj
    rw [hname]
    exact h.named hpos hj
  · intro j k l l' hj hk hfold
    rw [hname] at hj hk
    exact h.distinct hj hk hfold
  · intro j
    rw [hpage]
    split
    · exact (h.page i).insert e.key
    · exact h.page j
  · intro x
    have hcontains (j : Nat) : ((c.post i e).page j).contains x = true ↔
        (j = i ∧ x = e.key) ∨ (c.page j).contains x = true := by
      rw [hpage]
      split
      · rename_i hj
        rw [hj, Page.contains_insert]
        simp
      · rename_i hj
        simp [hj]
    rw [hentry]
    simp only [hcontains, exists_or, exists_and_right, exists_eq, true_and, h.cited]
    split <;> simp [*]
  · intro x e' hx
    rw [hentry] at hx
    split at hx
    · rename_i hkey
      cases hx
      exact ⟨hkey.symm, he⟩
    · exact h.keyed hx

theorem turnTo {label : Option String} (hlabel : ∀ l ∈ label, IsProper l) :
    (c.turnTo label).1 < (c.turnTo label).2.size ∧ (c.turnTo label).2.Sound schema known ∧
      (c.turnTo label).2.key = c.key := by
  cases label with
  | none => exact ⟨h.size, h, rfl⟩
  | some name =>
    cases hfind : c.find? name with
    | some i =>
      rw [turnTo_found hfind]
      exact ⟨(find?_eq_some hfind).1, h, rfl⟩
    | none =>
      rw [turnTo_added hfind]
      exact ⟨Nat.lt_succ_self _, h.addPage (hlabel name rfl) hfind, rfl⟩

end Sound

end Account

/-! ## Entering what is proper -/

structure Saying.Proper (s : Saying) : Prop where
  label : ∀ l ∈ s.1, IsProper l
  statements : ∀ x ∈ s.2, ∀ t ∈ x.texts, IsProper t

structure Passage.Proper (p : Passage) : Prop where
  name : IsProper p.name
  qualifier : ∀ q ∈ p.qualifier, IsWordy q
  sayings : ∀ s ∈ p.sayings, s.Proper

theorem Block.proper_of_passage {b : Block} (h : b.passage.Proper) : b.Proper where
  name := h.name
  qualifier := h.qualifier
  fences f hf := by
    have hsaying := h.sayings f.saying (List.mem_map_of_mem hf)
    exact ⟨hsaying.label, fun x hx => hsaying.statements x.2 (List.mem_map_of_mem hx)⟩

theorem Text.isProper_of_mem_collapse? {qualifier : Option String} (h : ∀ q ∈ qualifier, IsWordy q) :
    ∀ q ∈ collapse? qualifier, IsProper q := by
  intro q hq
  obtain ⟨hmap, hne⟩ := Option.filter_eq_some_iff.mp hq
  obtain ⟨s, rfl, rfl⟩ := Option.map_eq_some_iff.mp hmap
  have hs := h s rfl
  rw [hs.1] at hne ⊢
  exact ⟨by simpa using hne, hs⟩

def Ledger.KnowsTarget (a : Ledger) : Statement → Prop
  | .relation s => a.Known (.ofName s.targetName s.targetQualifier)
  | .attr _ => True

theorem Schema.entry?_admits {schema : Schema} (hw : schema.Wordy) {s : Statement} {e : Entry} {a : Ledger}
    (hs : ∀ t ∈ s.texts, IsProper t) (ht : a.KnowsTarget s) (he : schema.entry? s = some e) :
    schema.Admits a.Known e := by
  have hproper {name own : String} (hname : IsProper name) (hown : IsWordy own ∧ fold own = fold name) :
      IsProper own := by
    refine ⟨?_, hown.1⟩
    rintro rfl
    exact hname.fold_ne (hown.2.symm.trans (by decide))
  cases s with
  | relation s =>
    obtain ⟨hname, -, hsubject, hadverb, hquantifier, -, hmodality⟩ := RelationStatement.forall_texts.mp hs
    obtain ⟨d, hd, rfl⟩ := Option.map_eq_some_iff.mp he
    have hown := hw.relation hd
    refine ⟨⟨d, ?_, rfl⟩, hproper hname hown, ht, rfl, ?_⟩
    · rw [← hd]
      simp only [Schema.relationType?, Schema.findRelationType, SchemaTier.relationType?, hown.2]
    · simp only [RelationModifiers.texts, List.forall_mem_append, Option.mem_toList]
      exact ⟨⟨⟨hadverb, hmodality⟩, hsubject⟩, hquantifier⟩
  | attr s =>
    obtain ⟨hname, hvalue, hadverb, hunit, hmodality⟩ := AttributeStatement.forall_texts.mp hs
    obtain ⟨d, hd, he⟩ := Option.bind_eq_some_iff.mp he
    have hown := hw.attr hd
    split at he
    · rename_i typed hcheck
      cases he
      refine ⟨⟨d, ?_, rfl, hcheck⟩, hproper hname hown, hvalue, rfl, ?_⟩
      · rw [← hd]
        simp only [Schema.attributeType?, Schema.findAttributeType, SchemaTier.attributeType?, hown.2]
      · simp only [AttributeModifiers.texts, List.forall_mem_append, Option.mem_toList]
        exact ⟨⟨hunit, hadverb⟩, hmodality⟩
    · cases he

namespace Ledger

variable {schema : Schema} {a : Ledger} {key : NameKey} {c : Account}

theorem modify_eq (h : a key = some c) (f : Account → Account) :
    a.modify key f = Function.update a key (some (f c)) := by
  rw [modify, h, Option.map_some]

theorem applySaying_eq (h : a key = some c) (saying : Saying) :
    a.applySaying schema key saying = saying.2.foldl (applyStatement schema key (c.turnTo saying.1).1)
      (Function.update a key (some (c.turnTo saying.1).2)) := by
  rw [applySaying, h]

theorem enter_of_known {name : String} {qualifier : Option String} (h : a.Known (.ofName name qualifier)) :
    a.enter name qualifier = a :=
  if_pos (Option.isSome_iff_exists.mpr h)

theorem enter_of_unknown {name : String} {qualifier : Option String} (h : a (.ofName name qualifier) = none) :
    a.enter name qualifier =
      Function.update a (.ofName name qualifier) (some (.new (collapse name) (collapse? qualifier))) :=
  if_neg (by simp [h])

theorem enter_cases (a : Ledger) (name : String) (qualifier : Option String) :
    (a.Known (.ofName name qualifier) ∧ a.enter name qualifier = a) ∨
      (a (.ofName name qualifier) = none ∧ a.enter name qualifier =
        Function.update a (.ofName name qualifier) (some (.new (collapse name) (collapse? qualifier)))) := by
  cases h : a (.ofName name qualifier) with
  | some c => exact Or.inl ⟨⟨c, h⟩, enter_of_known ⟨c, h⟩⟩
  | none => exact Or.inr ⟨rfl, enter_of_unknown h⟩

theorem enter_known (name : String) (qualifier : Option String) (h : a key = some c) :
    a.enter name qualifier key = some c := by
  rcases enter_cases a name qualifier with ⟨-, he⟩ | ⟨hnone, he⟩
  · rw [he, h]
  · rw [he, Function.update_of_ne, h]
    rintro rfl
    rw [h] at hnone
    cases hnone

theorem known_enter (a : Ledger) (name : String) (qualifier : Option String) :
    (a.enter name qualifier).Known (.ofName name qualifier) := by
  rcases enter_cases a name qualifier with ⟨h, he⟩ | ⟨-, he⟩
  · rwa [he]
  · rw [he]
    exact ⟨_, Function.update_self ..⟩

theorem enterTarget_known (s : Statement) (h : a key = some c) : a.enterTarget s key = some c := by
  cases s with
  | relation s => exact enter_known _ _ h
  | attr s => exact h

theorem knowsTarget_enterTarget (a : Ledger) (s : Statement) : (a.enterTarget s).KnowsTarget s := by
  cases s with
  | relation s => exact known_enter a _ _
  | attr s => trivial

namespace Sound

variable (h : a.Sound schema)

include h

theorem update {c' : Account} (hkey : c'.key = key) (hc : c'.Sound schema a.Known) :
    Ledger.Sound schema (Function.update a key (some c')) := by
  have hknown (k : NameKey) (hk : a.Known k) : Ledger.Known (Function.update a key (some c')) k := by
    unfold Known
    rw [Function.update_apply]
    split
    · exact ⟨c', rfl⟩
    · exact hk
  refine ⟨fun {k c₀} hc₀ => ?_⟩
  rw [Function.update_apply] at hc₀
  split at hc₀
  · rename_i hk
    cases hc₀
    exact ⟨hkey.trans hk.symm, hc.mono hknown⟩
  · exact ⟨(h.account hc₀).1, (h.account hc₀).2.mono hknown⟩

end Sound

end Ledger

end Morphology
