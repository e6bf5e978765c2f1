import Morphology.Proofs.Export.Ledger
import Morphology.Proofs.Graph.Growth

/-! Graphs that keep a ledger. The ledger and the book of names settle everything in the tables of such a graph but
the versions of its nodes, and every elementary change that adds to the graph is an entry into its ledger. -/

namespace Morphology

open Text

def NameBook.idOf (book : NameBook) (key : NameKey) : NodeId := (book.byName.get? key).getD ⟨""⟩

/-! ## Ledgers written out under given ids -/

section Refs

variable (ids : NameKey → NodeId) (o : NodeId)

def RelationKey.ref (x : RelationKey) : RelationId := .compose o x.name (ids x.target)

def EdgeKey.ref : EdgeKey → EdgeRef
  | .relation x => .relation (x.ref ids o)
  | .attr name => .attr (.compose o name)

def Page.morph (i : Nat) (p : Page) : Morph where
  id := .ofNode o i
  name := p.name
  owner := o
  relations := p.relations.map (·.ref ids o)
  attributes := p.attributes.map (.compose o)

end Refs

def Account.node (id : NodeId) (version : Nat) (c : Account) : Node where
  id := id
  name := c.name
  qualifier := c.qualifier
  quantifier := none
  role := .individual
  nodeType := none
  morphs := (List.range c.size).map (.ofNode id)
  active := none
  version := version
  nextMorph := c.size

theorem Account.withMorph_node (id : NodeId) (version : Nat) (c : Account) (name : String) :
    (c.node id version).withMorph = (c.addPage name).node id version := by
  simp [node, Node.withMorph, addPage, List.range_succ]

theorem Account.basicMorph_node {c : Account} (h : 0 < c.size) (id : NodeId) (version : Nat) :
    (c.node id version).basicMorph = .ofNode id 0 := by
  obtain ⟨n, hn⟩ := Nat.exists_eq_succ_of_ne_zero h.ne'
  simp [Node.basicMorph, node, hn, List.range_succ_eq_map]

namespace Page

variable {ids ids' : NameKey → NodeId} {o : NodeId} {i : Nat} {p : Page} {x : EdgeKey}

theorem morph_congr (h : ∀ x ∈ p.relations, ids x.target = ids' x.target) : p.morph ids o i = p.morph ids' o i := by
  have hmap : p.relations.map (·.ref ids o) = p.relations.map (·.ref ids' o) :=
    List.map_congr_left fun x hx => by rw [RelationKey.ref, h x hx, RelationKey.ref]
  simp only [morph, hmap]

theorem contains_morph (h : ∀ y, p.contains y = true → y.ref ids o = x.ref ids o → y = x) :
    (p.morph ids o i).contains (x.ref ids o) = p.contains x := by
  rw [Bool.eq_iff_iff]
  cases x with
  | relation x =>
    simp only [morph, Morph.contains, EdgeKey.ref, contains, List.contains_iff_mem, List.mem_map]
    constructor
    · rintro ⟨y, hy, heq⟩
      cases h (.relation y) (by simpa [contains] using hy) (by rw [EdgeKey.ref, heq, EdgeKey.ref])
      exact hy
    · exact fun hx => ⟨x, hx, rfl⟩
  | attr x =>
    simp only [morph, Morph.contains, EdgeKey.ref, contains, List.contains_iff_mem, List.mem_map]
    constructor
    · rintro ⟨y, hy, heq⟩
      cases h (.attr y) (by simpa [contains] using hy) (by rw [EdgeKey.ref, heq, EdgeKey.ref])
      exact hy
    · exact fun hx => ⟨x, hx, rfl⟩

theorem morph_insert (h : ∀ y, p.contains y = true → y.ref ids o = x.ref ids o → y = x) :
    (p.insert x).morph ids o i = (p.morph ids o i).insert (x.ref ids o) := by
  unfold insert Morph.insert
  rw [contains_morph h]
  split
  · rfl
  · cases x <;> simp [morph, EdgeKey.ref]

end Page

/-! ## Keeping a ledger -/

/-- The record of an entry under `o` is in the tables. Its qualifier is free, as long as the target has one. -/
def Graph.Holds (g : Graph) (o : NodeId) : Entry → Prop
  | .relation x m => ∃ q, g.relations.get? (x.ref g.names.idOf o) =
        some ⟨x.ref g.names.idOf o, x.name, o, g.names.idOf x.target, { m with qualifier := q }⟩ ∧
      (q.isSome → x.target.qualifier.isSome)
  | .attr name value typed m => g.attributes.get? (.compose o name) = some ⟨.compose o name, name, o, value, typed, m⟩

structure Graph.Keeps (schema : Schema) (a : Ledger) (g : Graph) : Prop where
  sound : a.Sound schema
  rooted : ∀ {key id}, g.names.byName.get? key = some id → id.IsRooted g.names.space
  taken : ∀ {id}, g.names.taken.contains id = true ↔ g.nodes.contains id = true
  named : ∀ {id}, g.nodes.contains id = true → ∃ key, g.names.byName.get? key = some id
  unknown : ∀ {key}, g.names.byName.get? key = none → a key = none
  node : ∀ {key id}, g.names.byName.get? key = some id →
    ∃ c version, a key = some c ∧ g.nodes.get? id = some (c.node id version)
  morph : ∀ {key id c i}, g.names.byName.get? key = some id → a key = some c → i < c.size →
    g.morphs.get? (.ofNode id i) = some ((c.page i).morph g.names.idOf id i)
  entry : ∀ {key id c x e}, g.names.byName.get? key = some id → a key = some c → c.entry x = some e → g.Holds id e
  edge : ∀ {ref}, g.hasEdge ref = true → ∃ key id c x, g.names.byName.get? key = some id ∧ a key = some c ∧
    (∃ e, c.entry x = some e) ∧ ref = x.ref g.names.idOf id

namespace Graph

theorem Holds.hasEdge {g : Graph} {o : NodeId} {e : Entry} (h : g.Holds o e) :
    g.hasEdge (e.key.ref g.names.idOf o) = true := by
  cases e with
  | relation x m =>
    obtain ⟨q, hr, -⟩ := h
    exact Table.contains_iff.mpr ⟨_, hr⟩
  | attr name value typed m => exact Table.contains_iff.mpr ⟨_, h⟩

/-- The record of the entry under `o` is written into the tables, and nothing else is different. -/
structure Writes (o : NodeId) (e : Entry) (g g' : Graph) : Prop where
  names : g'.names = g.names
  nodes : g'.nodes = g.nodes
  morphs : g'.morphs = g.morphs
  held : g'.Holds o e
  kept : ∀ o' e', e'.key.ref g.names.idOf o' ≠ e.key.ref g.names.idOf o → g.Holds o' e' → g'.Holds o' e'
  edge : ∀ ref, g'.hasEdge ref = true → ref = e.key.ref g.names.idOf o ∨ g.hasEdge ref = true

theorem writes_withRelation (g : Graph) (o : NodeId) (x : RelationKey) (m : RelationModifiers) {q : Option String}
    (hq : q.isSome → x.target.qualifier.isSome) :
    Writes o (.relation x m) g
      (g.withRelation (Relation.new o x.name (g.names.idOf x.target) { m with qualifier := q })) where
  names := rfl
  nodes := rfl
  morphs := rfl
  held := ⟨q, Table.lookup_insert_self, hq⟩
  kept o' e' hne hheld := by
    cases e' with
    | attr name value typed m' => exact hheld
    | relation y m' =>
      obtain ⟨q', hy, hq'⟩ := hheld
      refine ⟨q', Table.lookup_insert.trans ?_, hq'⟩
      rw [if_neg]
      · exact hy
      · exact fun heq => hne (congrArg EdgeRef.relation heq)
  edge ref href := by
    cases ref with
    | attr k => exact Or.inr href
    | relation k =>
      obtain ⟨r, hr⟩ := Table.contains_iff.mp href
      rw [withRelation, Table.lookup_insert] at hr
      split at hr
      · rename_i hk
        exact Or.inl (congrArg EdgeRef.relation hk)
      · exact Or.inr (Table.contains_iff.mpr ⟨r, hr⟩)

theorem writes_withAttribute (g : Graph) (o : NodeId) (name value : String) (typed : Option Value)
    (m : AttributeModifiers) :
    Writes o (.attr name value typed m) g (g.withAttribute (Attribute.new o name value typed m)) where
  names := rfl
  nodes := rfl
  morphs := rfl
  held := Table.lookup_insert_self
  kept o' e' hne hheld := by
    cases e' with
    | relation y m' => exact hheld
    | attr name' value' typed' m' =>
      refine Table.lookup_insert.trans ?_
      rw [if_neg]
      · exact hheld
      · exact fun heq => hne (congrArg EdgeRef.attr heq)
  edge ref href := by
    cases ref with
    | relation k => exact Or.inr href
    | attr k =>
      obtain ⟨b, hb⟩ := Table.contains_iff.mp href
      rw [withAttribute, Table.lookup_insert] at hb
      split at hb
      · rename_i hk
        exact Or.inl (congrArg EdgeRef.attr hk)
      · exact Or.inr (Table.contains_iff.mpr ⟨b, hb⟩)

theorem Writes.hasEdge {o : NodeId} {e : Entry} {g g' : Graph} (hw : Writes o e g g') :
    g'.hasEdge (e.key.ref g.names.idOf o) = true :=
  hw.names ▸ hw.held.hasEdge

theorem Linked.holds {k : MorphId} {ref : EdgeRef} {g g' : Graph} (hl : Linked k ref g g') (o : NodeId) (e : Entry) :
    g'.Holds o e = g.Holds o e :=
  (congrArg (Graph.Holds · o e) hl.rest :)

variable {schema : Schema} {a : Ledger} {g g' : Graph} {key key' : NameKey} {id id' : NodeId} {c : Account}

theorem keeps_empty (schema : Schema) (space : Namespace) : (empty space).Keeps schema Ledger.empty where
  sound := ⟨fun h => by cases h⟩
  rooted h := by cases h
  taken := Iff.rfl
  named h := by cases h
  unknown _ := rfl
  node h := by cases h
  morph h := by cases h
  entry h := by cases h
  edge {ref} h := by cases ref <;> cases h

/-- The name of the edge can stand in an id, and the target is known. -/
def Fits (a : Ledger) : EdgeKey → Prop
  | .relation x => IsPlain x.name ∧ a.Known x.target
  | .attr _ => True

theorem fits_of_admits {e : Entry} (h : schema.Admits a.Known e) : Fits a e.key := by
  cases e with
  | relation x m => exact ⟨h.2.1.isPlain, h.2.2.1⟩
  | attr name value typed m => trivial

theorem holds_congr {o : NodeId} {e : Entry} (hids : ∀ k, a.Known k → g'.names.idOf k = g.names.idOf k)
    (he : schema.Admits a.Known e) (hr : g'.relations = g.relations) (ha : g'.attributes = g.attributes)
    (hheld : g.Holds o e) : g'.Holds o e := by
  cases e with
  | relation x m =>
    have htarget := hids x.target he.2.2.1
    simpa only [Holds, RelationKey.ref, htarget, hr] using hheld
  | attr name value typed m => simpa only [Holds, ha] using hheld

theorem ref_congr {ids : NameKey → NodeId} {x : EdgeKey} {o : NodeId} (hids : ∀ k, a.Known k → ids k = g.names.idOf k)
    (hx : Fits a x) : x.ref ids o = x.ref g.names.idOf o := by
  cases x with
  | relation x => rw [EdgeKey.ref, RelationKey.ref, hids _ hx.2, EdgeKey.ref, RelationKey.ref]
  | attr name => rfl

namespace Keeps

variable (h : g.Keeps schema a)

include h

theorem known_iff : a.Known key ↔ ∃ id, g.names.byName.get? key = some id := by
  constructor
  · rintro ⟨c, hc⟩
    cases hid : g.names.byName.get? key with
    | some id => exact ⟨id, rfl⟩
    | none =>
      rw [h.unknown hid] at hc
      cases hc
  · rintro ⟨id, hid⟩
    obtain ⟨c, -, hc, -⟩ := h.node hid
    exact ⟨c, hc⟩

theorem get?_of_known (hk : a.Known key) : g.names.byName.get? key = some (g.names.idOf key) := by
  obtain ⟨id, hid⟩ := h.known_iff.mp hk
  rw [NameBook.idOf, hid]
  rfl

theorem contains_node (hid : g.names.byName.get? key = some id) : g.nodes.contains id = true := by
  obtain ⟨c, v, -, hn⟩ := h.node hid
  exact Table.contains_iff.mpr ⟨_, hn⟩

theorem key_inj (hid : g.names.byName.get? key = some id) (hid' : g.names.byName.get? key' = some id) : key = key' := by
  obtain ⟨c, v, hc, hn⟩ := h.node hid
  obtain ⟨c', v', hc', hn'⟩ := h.node hid'
  rw [hn, Option.some.injEq, Account.node, Account.node, Node.mk.injEq] at hn'
  rw [← (h.sound.account hc).1, ← (h.sound.account hc').1, Account.key, Account.key, hn'.2.1, hn'.2.2.1]

theorem ref_inj {x y : EdgeKey} (hid : g.names.byName.get? key = some id) (hid' : g.names.byName.get? key' = some id')
    (hx : Fits a x) (hy : Fits a y) (heq : x.ref g.names.idOf id = y.ref g.names.idOf id') : id = id' ∧ x = y := by
  cases x with
  | relation x =>
    cases y with
    | attr y => cases heq
    | relation y =>
      simp only [EdgeKey.ref, EdgeRef.relation.injEq, RelationKey.ref] at heq
      obtain ⟨rfl, hname, htarget⟩ :=
        RelationId.compose_inj_of_rooted (h.rooted hid) (h.rooted hid') hx.1 hy.1 heq
      have htargets := h.key_inj (h.get?_of_known hx.2) (htarget ▸ h.get?_of_known hy.2)
      cases x
      cases y
      simp_all
  | attr x =>
    cases y with
    | relation y => cases heq
    | attr y =>
      simp only [EdgeKey.ref, EdgeRef.attr.injEq] at heq
      obtain ⟨rfl, rfl⟩ := AttributeId.compose_inj_of_rooted (h.rooted hid) (h.rooted hid') heq
      exact ⟨rfl, rfl⟩

theorem fits {x : EdgeKey} {e : Entry} (hc : a key = some c) (he : c.entry x = some e) : Fits a x := by
  obtain ⟨rfl, hadmits⟩ := (h.sound.account hc).2.keyed he
  exact fits_of_admits hadmits

theorem fits_of_contains {x : EdgeKey} {i : Nat} (hc : a key = some c) (hx : (c.page i).contains x = true) :
    Fits a x := by
  obtain ⟨e, he⟩ := (h.sound.account hc).2.cited.mp ⟨i, hx⟩
  exact h.fits hc he

theorem morphsOf (hid : g.names.byName.get? key = some id) (hc : a key = some c) (version : Nat) :
    g.morphsOf (c.node id version) = (List.range c.size).map fun i => (c.page i).morph g.names.idOf id i := by
  rw [Graph.morphsOf, Account.node, List.filterMap_map, ← List.filterMap_eq_map]
  refine List.filterMap_congr fun i hi => ?_
  exact h.morph hid hc (List.mem_range.mp hi)

theorem modifyNode_bump (id : NodeId) : (g.modifyNode id Node.bump).Keeps schema a := by
  have hcontains {k : NodeId} : (g.modifyNode id Node.bump).nodes.contains k = true ↔ g.nodes.contains k = true := by
    simp only [Table.contains_iff, nodes_modifyNode]
    split
    · rename_i hk
      simp [hk]
    · exact Iff.rfl
  refine { h with taken := h.taken.trans hcontains.symm, named := fun hn => h.named (hcontains.mp hn), node := ?_ }
  intro key k hk
  obtain ⟨c, v, hc, hn⟩ := h.node hk
  rw [nodes_modifyNode, hn]
  split
  · exact ⟨c, v + 1, hc, rfl⟩
  · exact ⟨c, v, hc, rfl⟩

theorem page_congr {ids : NameKey → NodeId} {i : Nat} {o : NodeId} (hids : ∀ k, a.Known k → ids k = g.names.idOf k)
    (hc : a key = some c) : (c.page i).morph ids o i = (c.page i).morph g.names.idOf o i := by
  refine Page.morph_congr fun x hx => hids _ ?_
  have hfits := h.fits_of_contains (x := .relation x) hc (by simpa [Page.contains] using hx)
  exact hfits.2

theorem addNode {book : NameBook} {name : String} {qualifier : Option String} (hname : IsProper name)
    (hqualifier : ∀ q ∈ qualifier, IsProper q) (hspace : book.space = g.names.space)
    (hbook : ∀ k, book.byName.get? k = if k = .ofName name qualifier then some id else g.names.byName.get? k)
    (htaken : ∀ k, book.taken.contains k = true ↔ k = id ∨ g.names.taken.contains k = true)
    (hrooted : id.IsRooted g.names.space) (hfree : g.names.taken.contains id = false)
    (hnone : g.names.byName.get? (.ofName name qualifier) = none) :
    (g.withMorph book (Node.new id name qualifier) (.ofNode id 0) none).Keeps schema
      (Function.update a (.ofName name qualifier) (some (.new name qualifier))) := by
  -- The name and the id are both new, so no record that was there is written over.
  have hold {k i} (hk : g.names.byName.get? k = some i) : k ≠ .ofName name qualifier ∧ i ≠ id := by
    constructor
    · rintro rfl
      rw [hnone] at hk
      cases hk
    · rintro rfl
      obtain ⟨c, v, -, hn⟩ := h.node hk
      rw [h.taken.mpr (Table.contains_iff.mpr ⟨_, hn⟩)] at hfree
      cases hfree
  have hbook' {k i} (hk : g.names.byName.get? k = some i) : book.byName.get? k = some i := by
    rw [hbook, if_neg (hold hk).1, hk]
  have hids : ∀ k, a.Known k → book.idOf k = g.names.idOf k := by
    intro k hk
    rw [NameBook.idOf, hbook' (h.get?_of_known hk)]
    rfl
  have hledger {k i c₀} (hk : g.names.byName.get? k = some i) (hc : a k = some c₀) :
      Function.update a (.ofName name qualifier) (some (.new name qualifier)) k = some c₀ := by
    rw [Function.update_of_ne (hold hk).1, hc]
  have hcontains {k : NodeId} : (g.withMorph book (Node.new id name qualifier) (.ofNode id 0) none).nodes.contains k =
      true ↔ k = id ∨ g.nodes.contains k = true := by
    simp only [Table.contains_iff, nodes_withMorph]
    by_cases hk : k = id <;> simp [Node.new, hk]
  refine {
    sound := h.sound.update rfl (.new hname hqualifier), rooted := ?_, taken := ?_, named := ?_, unknown := ?_,
    node := ?_, morph := ?_, entry := ?_, edge := ?_ }
  · intro k i (hk : book.byName.get? k = some i)
    show i.IsRooted book.space
    rw [hbook] at hk
    rw [hspace]
    split at hk
    · cases hk
      exact hrooted
    · exact h.rooted hk
  · intro k
    rw [hcontains, ← h.taken]
    exact htaken k
  · intro k hk
    rcases hcontains.mp hk with rfl | hk
    · exact ⟨_, (hbook _).trans (if_pos rfl)⟩
    · obtain ⟨key, hkey⟩ := h.named hk
      exact ⟨key, hbook' hkey⟩
  · intro k (hk : book.byName.get? k = none)
    rw [hbook] at hk
    split at hk
    · cases hk
    · rename_i hne
      rw [Function.update_of_ne hne, h.unknown hk]
  · intro k i (hk : book.byName.get? k = some i)
    rw [hbook] at hk
    rw [nodes_withMorph]
    split at hk
    · rename_i hkey
      cases hk
      exact ⟨.new name qualifier, 1, by rw [hkey, Function.update_self], if_pos rfl⟩
    · obtain ⟨c, v, hc, hn⟩ := h.node hk
      exact ⟨c, v, hledger hk hc, (if_neg (hold hk).2).trans hn⟩
  · intro k i c j (hk : book.byName.get? k = some i) hc hj
    rw [morphs_withMorph]
    rw [hbook] at hk
    split at hk
    · rename_i hkey
      cases hk
      rw [hkey, Function.update_self] at hc
      cases hc
      obtain rfl : j = 0 := Nat.lt_one_iff.mp hj
      exact if_pos rfl
    · rename_i hkey
      rw [Function.update_of_ne hkey] at hc
      have hne : MorphId.ofNode i j ≠ .ofNode id 0 := fun heq =>
        (hold hk).2 (MorphId.ofNode_inj heq).1
      rw [if_neg hne, h.morph hk hc hj]
      exact congrArg some (h.page_congr hids hc).symm
  · intro k i c x e (hk : book.byName.get? k = some i) hc he
    rw [hbook] at hk
    split at hk
    · rename_i hkey
      rw [hkey, Function.update_self] at hc
      cases hc
      cases he
    · rename_i hkey
      rw [Function.update_of_ne hkey] at hc
      exact holds_congr hids ((h.sound.account hc).2.keyed he).2 rfl rfl (h.entry hk hc he)
  · intro ref href
    have hthere : g.hasEdge ref = true := by cases ref <;> exact href
    obtain ⟨k, i, c, x, hk, hc, ⟨e, he⟩, rfl⟩ := h.edge hthere
    exact ⟨k, i, c, x, hbook' hk, hledger hk hc, ⟨e, he⟩, (ref_congr hids (h.fits hc he)).symm⟩

/-- One account is replaced, and with it the records of its node, its morphs and its edges. -/
theorem update {c' : Account} (hid : g.names.byName.get? key = some id) (hc : a key = some c) (hkey : c'.key = key)
    (hsound : c'.Sound schema a.Known) (hnames : g'.names = g.names)
    (hnode : ∃ version, g'.nodes.get? id = some (c'.node id version))
    (hnodes : ∀ o, o ≠ id → g'.nodes.get? o = g.nodes.get? o)
    (hmorph : ∀ i < c'.size, g'.morphs.get? (.ofNode id i) = some ((c'.page i).morph g.names.idOf id i))
    (hmorphs : ∀ l, (∀ i, l ≠ .ofNode id i) → g'.morphs.get? l = g.morphs.get? l)
    (hentry : ∀ x e, c'.entry x = some e → g'.Holds id e)
    (hheld : ∀ k o e, g.names.byName.get? k = some o → o ≠ id → Fits a e.key → g.Holds o e → g'.Holds o e)
    (hgrow : ∀ x, (∃ e, c.entry x = some e) → ∃ e, c'.entry x = some e)
    (hedge : ∀ ref, g'.hasEdge ref = true →
      (∃ x, (∃ e, c'.entry x = some e) ∧ ref = x.ref g.names.idOf id) ∨ g.hasEdge ref = true) :
    g'.Keeps schema (Function.update a key (some c')) := by
  -- Names that are apart have ids that are apart: the account of any other key is out of reach.
  have hother {k o} (hk : g.names.byName.get? k = some o) (hne : k ≠ key) : o ≠ id := by
    rintro rfl
    exact hne (h.key_inj hk hid)
  have hcontains {o : NodeId} : g'.nodes.contains o = true ↔ g.nodes.contains o = true := by
    by_cases ho : o = id
    · obtain ⟨v, hn⟩ := hnode
      rw [ho]
      exact iff_of_true (Table.contains_iff.mpr ⟨_, hn⟩) (h.contains_node hid)
    · simp only [Table.contains_iff, hnodes o ho]
  refine {
    sound := h.sound.update hkey hsound, rooted := ?_, taken := ?_, named := ?_, unknown := ?_,
    node := ?_, morph := ?_, entry := ?_, edge := ?_ }
  all_goals rw [hnames]
  · exact h.rooted
  · exact h.taken.trans hcontains.symm
  · exact fun hn => h.named (hcontains.mp hn)
  · intro k hk
    rw [Function.update_of_ne]
    · exact h.unknown hk
    · rintro rfl
      rw [hid] at hk
      cases hk
  · intro k o hk
    by_cases hkey : k = key
    · subst hkey
      obtain rfl : o = id := Option.some.inj (hk.symm.trans hid)
      obtain ⟨v, hn⟩ := hnode
      exact ⟨c', v, Function.update_self .., hn⟩
    · rw [Function.update_of_ne hkey, hnodes o (hother hk hkey)]
      exact h.node hk
  · intro k o c₀ i hk hc₀ hi
    by_cases hkey : k = key
    · subst hkey
      obtain rfl : o = id := Option.some.inj (hk.symm.trans hid)
      rw [Function.update_self] at hc₀
      cases hc₀
      exact hmorph i hi
    · rw [Function.update_of_ne hkey] at hc₀
      rw [hmorphs, h.morph hk hc₀ hi]
      intro j heq
      exact hother hk hkey (MorphId.ofNode_inj heq).1
  · intro k o c₀ x e hk hc₀ he
    by_cases hkey : k = key
    · subst hkey
      obtain rfl : o = id := Option.some.inj (hk.symm.trans hid)
      rw [Function.update_self] at hc₀
      cases hc₀
      exact hentry x e he
    · rw [Function.update_of_ne hkey] at hc₀
      have hadmits := ((h.sound.account hc₀).2.keyed he).2
      exact hheld k o e hk (hother hk hkey) (fits_of_admits hadmits) (h.entry hk hc₀ he)
  · intro ref href
    rcases hedge ref href with ⟨x, he, rfl⟩ | href
    · exact ⟨key, id, c', x, hid, Function.update_self .., he, rfl⟩
    · obtain ⟨k, o, c₀, x, hk, hc₀, he, rfl⟩ := h.edge href
      by_cases hkey : k = key
      · subst hkey
        obtain rfl : c₀ = c := Option.some.inj (hc₀.symm.trans hc)
        exact ⟨_, o, c', x, hk, Function.update_self .., hgrow x he, rfl⟩
      · exact ⟨k, o, c₀, x, hk, by rw [Function.update_of_ne hkey, hc₀], he, rfl⟩

theorem addPage {name : String} {v : Nat} (hid : g.names.byName.get? key = some id) (hc : a key = some c)
    (hname : IsProper name) (hfree : c.find? name = none) :
    (g.withMorph g.names ((c.addPage name).node id v) (.ofNode id c.size) (some name)).Keeps schema
      (Function.update a key (some (c.addPage name))) := by
  obtain ⟨rfl, hsound⟩ := h.sound.account hc
  refine h.update hid hc rfl (hsound.addPage hname hfree) rfl ⟨v, nodes_withMorph.trans (if_pos rfl)⟩
    (fun o ho => nodes_withMorph.trans (if_neg ho)) (fun i hi => ?_)
    (fun l hl => morphs_withMorph.trans (if_neg (hl _))) (fun _ _ he => h.entry hid hc he)
    (fun _ _ _ _ _ _ hheld => hheld) (fun _ he => he) (fun ref href => Or.inr (by cases ref <;> exact href))
  have hpage : (c.addPage name).page i = if i = c.size then { name := some name } else c.page i :=
    Function.update_apply ..
  rw [morphs_withMorph, hpage]
  by_cases hlast : i = c.size
  · rw [hlast, if_pos rfl, if_pos rfl]
    rfl
  · have hne : MorphId.ofNode id i ≠ .ofNode id c.size := fun heq =>
      hlast (MorphId.ofNode_inj heq).2
    rw [if_neg hne, if_neg hlast]
    exact h.morph hid hc (by simp only [Account.addPage] at hi; omega)

/-- A graph that has the entry in place of what was said before, and a morph of its owner that refers to the edge. -/
theorem post {g₁ : Graph} {e : Entry} {i : Nat} (hid : g.names.byName.get? key = some id) (hc : a key = some c)
    (hi : i < c.size) (he : schema.Admits a.Known e) (hw : Writes id e g g₁)
    (hl : Linked (.ofNode id i) (e.key.ref g.names.idOf id) g₁ g') :
    g'.Keeps schema (Function.update a key (some (c.post i e))) := by
  obtain ⟨rfl, hsound⟩ := h.sound.account hc
  have hfits := fits_of_admits he
  have hentry (x : EdgeKey) : (c.post i e).entry x = if x = e.key then some e else c.entry x :=
    Function.update_apply ..
  have hnodes : g'.nodes = g.nodes := hl.nodes.trans hw.nodes
  refine h.update hid hc rfl (hsound.post hi he) (hl.names.trans hw.names) ?_ (fun o _ => by rw [hnodes])
    (fun j hj => ?_) (fun l hne => ?_) (fun x e' he' => ?_) (fun k o e' hk hne hfits' hheld => ?_)
    (fun x hx => ?_) fun ref href => ?_
  · obtain ⟨c', v, hc', hn⟩ := h.node hid
    obtain rfl : c' = c := Option.some.inj (hc'.symm.trans hc)
    exact ⟨v, hnodes ▸ hn⟩
  · have hpage : (c.post i e).page j = if j = i then (c.page i).insert e.key else c.page j :=
      Function.update_apply ..
    rw [hl.morphs, hw.morphs, hpage, h.morph hid hc hj]
    by_cases hji : j = i
    · rw [hji, if_pos rfl, if_pos rfl, Option.map_some, Page.morph_insert]
      exact fun y hy heq => (h.ref_inj hid hid (h.fits_of_contains hc hy) hfits heq).2
    · have hne : MorphId.ofNode id j ≠ .ofNode id i := fun heq =>
        hji (MorphId.ofNode_inj heq).2
      rw [if_neg hne, if_neg hji]
  · rw [hl.morphs, if_neg (hne i), hw.morphs]
  · rw [hl.holds]
    rw [hentry] at he'
    split at he'
    · cases he'
      exact hw.held
    · rename_i hne
      obtain ⟨rfl, hadmits⟩ := hsound.keyed he'
      exact hw.kept id e' (fun heq => hne (h.ref_inj hid hid (fits_of_admits hadmits) hfits heq).2) (h.entry hid hc he')
  · rw [hl.holds]
    exact hw.kept o e' (fun heq => hne (h.ref_inj hk hid hfits' hfits heq).1) hheld
  · rw [hentry]
    split
    · exact ⟨e, rfl⟩
    · exact hx
  · rw [hl.hasEdge] at href
    refine (hw.edge ref href).imp_left fun heq => ⟨e.key, ⟨e, ?_⟩, heq⟩
    rw [hentry, if_pos rfl]

end Keeps

end Graph

end Morphology
