import Morphology.Proofs.Application.Writing
import Morphology.Proofs.Edit.Frame

/-! The names of nodes. Resolving names tells nodes apart exactly where `NameKey.ofName` tells the names apart. One
name may be that of several nodes, since nodes are imported under any name; it stands for one of them then, and for none
when that one is deleted. -/

namespace Morphology

/-- What all spellings of the name of a node have in common. -/
def Node.nameKey (n : Node) : NameKey := .ofName n.name n.qualifier

theorem NameBook.registered_register {book : NameBook} (id : NodeId) (name : String) (qualifier : Option String) :
    ∃ o, (book.register id name qualifier).2.byName.get? (.ofName name qualifier) = some o := by
  cases hk : book.byName.get? (.ofName name qualifier) with
  | some o => exact ⟨o, byName_register_of_some hk⟩
  | none => exact ⟨id, by rw [register_unknown id hk, Table.lookup_insert_self]⟩

theorem NameBook.byName_unregister {book : NameBook} {id : NodeId} {name : String} {qualifier : Option String}
    {key : NameKey} : (book.unregister id name qualifier).byName.get? key =
      if key = .ofName name qualifier ∧ book.byName.get? key = some id then none else book.byName.get? key := by
  simp only [unregister]
  by_cases hid : book.byName.get? (.ofName name qualifier) = some id
  · rw [if_pos hid, Table.lookup_erase]
    by_cases hkey : key = .ofName name qualifier
    · rw [if_pos hkey, if_pos ⟨hkey, hkey ▸ hid⟩]
    · rw [if_neg hkey, if_neg fun h => hkey h.1]
  · rw [if_neg hid, if_neg]
    rintro ⟨rfl, h⟩
    exact hid h

namespace Graph

/-- Every node is found under its name, or another one of that name is. -/
def Found (g : Graph) : Prop := ∀ k n, g.nodes.get? k = some n →
  ∃ n', g.lookup n.name n.qualifier = some n' ∧ n'.nameKey = n.nameKey

/-- Every name that a node has stands for one. -/
def Registered (g : Graph) : Prop := ∀ k n, g.nodes.get? k = some n → ∃ o, g.names.byName.get? n.nameKey = some o

/-- The name of `o` stands for it, and is that of another node as well. -/
def SharesName (g : Graph) (o : NodeId) : Prop :=
  ∃ n k m, g.nodes.get? o = some n ∧ g.names.byName.get? n.nameKey = some o ∧
    k ≠ o ∧ g.nodes.get? k = some m ∧ m.nameKey = n.nameKey

structure SameNames (g g' : Graph) : Prop where
  nodes : ∀ k, (g'.nodes.get? k).map Node.nameKey = (g.nodes.get? k).map Node.nameKey
  names : g'.names = g.names

variable {g g' : Graph} {o : NodeId} {n : Node}

theorem SameFrame.sameNames (h : g.SameFrame g') : g.SameNames g' where
  nodes k := by
    have hkey (ns : Option Node) : ns.map Node.nameKey = (ns.map Node.frame).map Node.nameKey := by
      cases ns <;> rfl
    rw [hkey, h.nodes, ← hkey]
  names := h.names

namespace SameNames

variable (h : g.SameNames g')

include h

theorem symm : g'.SameNames g := ⟨fun k => (h.nodes k).symm, h.names.symm⟩

theorem node (hn : g.nodes.get? o = some n) : ∃ n', g'.nodes.get? o = some n' ∧ n'.nameKey = n.nameKey := by
  have ho := h.nodes o
  rw [hn] at ho
  exact Option.map_eq_some_iff.mp ho

theorem registered (hr : g.Registered) : g'.Registered := by
  intro k n hn
  obtain ⟨n₀, hn₀, hkey⟩ := h.symm.node hn
  rw [h.names, ← hkey]
  exact hr k n₀ hn₀

theorem sharesName (hs : g.SharesName o) : g'.SharesName o := by
  obtain ⟨n, k, m, hn, hname, hne, hm, hkey⟩ := hs
  obtain ⟨n', hn', hnn⟩ := h.node hn
  obtain ⟨m', hm', hmm⟩ := h.node hm
  exact ⟨n', k, m', hn', by rw [h.names, hnn, hname], hne, hm', by rw [hmm, hnn, hkey]⟩

end SameNames

theorem registered_empty (space : Namespace) : (empty space).Registered := nofun

theorem Registered.withNode (h : g.Registered) (id : NodeId) (name : String) (qualifier : Option String) :
    (g.withNode id name qualifier).Registered := by
  intro k n hn
  show ∃ o, (g.names.register id name qualifier).2.byName.get? n.nameKey = some o
  rw [Graph.withNode, nodes_withMorph] at hn
  split at hn
  · cases hn
    exact NameBook.registered_register id name qualifier
  · obtain ⟨o, ho⟩ := h k n hn
    exact ⟨o, NameBook.byName_register_of_some ho⟩

theorem Registered.resolve (h : g.Registered) (name : String) (qualifier : Option String) :
    (g.resolve name qualifier).2.Registered :=
  resolve_induction h (fun _ _ => h.withNode _ _ _) name qualifier

theorem Registered.importNode (h : g.Registered) (id : NodeId) (name : String) (qualifier : Option String) :
    (g.importNode id name qualifier).2.Registered :=
  importNode_induction h (fun _ _ _ => h.withNode _ _ _) name qualifier

/-- With a node goes its name, and no node may need it. -/
theorem registered_withoutNode (h : g.Registered) (hn : g.nodes.get? o = some n) :
    (g.withoutNode o n).Registered ↔ ¬g.SharesName o := by
  have hbook (key : NameKey) : (g.withoutNode o n).names.byName.get? key =
      if key = n.nameKey ∧ g.names.byName.get? key = some o then none else g.names.byName.get? key :=
    NameBook.byName_unregister
  constructor
  · rintro hr ⟨n', k, m, hn', hname, hne, hm, hkey⟩
    rw [hn] at hn'
    cases hn'
    obtain ⟨p, hp⟩ := hr k m (by rw [nodes_withoutNode, if_neg hne, hm])
    rw [hbook, hkey, if_pos ⟨rfl, hname⟩] at hp
    cases hp
  · intro hs k m hm
    rw [nodes_withoutNode] at hm
    split at hm
    · cases hm
    · rename_i hne
      obtain ⟨p, hp⟩ := h k m hm
      refine ⟨p, ?_⟩
      rw [hbook, if_neg, hp]
      rintro ⟨hkey, hname⟩
      exact hs ⟨n, k, m, hn, hkey ▸ hname, hne, hm, hkey⟩

theorem outlastsMorphs_registered : OutlastsMorphs Registered where
  unlink h hs := (sameFrame_unlink hs).sameNames.registered h
  removeEdge h hs := (sameFrame_removeEdge hs).sameNames.registered h
  link h hs := (sameFrame_link hs).sameNames.registered h
  bump o h := (SameFrame.modifyNode _ o (f := Node.bump) fun _ => rfl).sameNames.registered h
  createMorph {g o n name} _ hf hn h := by
    obtain ⟨rfl, -⟩ := hf.node hn
    refine SameNames.registered (g := g) ⟨fun k => ?_, rfl⟩ h
    rw [nodes_withMorph]
    split
    · rename_i hk
      rw [hk, show g.nodes.get? n.withMorph.id = some n from hn]
      rfl
    · rfl
  withoutMorph {g k m} hf hm hbasic _ h := by
    refine SameNames.registered (g := g) ⟨fun o => ?_, rfl⟩ h
    rw [nodes_withoutMorph]
    split
    · rw [Option.map_map]
      rfl
    · rfl
  choose o k h :=
    (SameFrame.modifyNode _ o (f := fun n => { n with active := some k }) fun _ => rfl).sameNames.registered h
  modify {g id r} modifiers hr h := by
    have hsame : g.SameNames { g with relations := g.relations.insert id { r with modifiers := modifiers } } :=
      ⟨fun _ => rfl, rfl⟩
    exact hsame.registered h

namespace Framed

variable (h : g.Framed)

include h

theorem named_inj {key key' : NameKey} (hk : g.names.byName.get? key = some o)
    (hk' : g.names.byName.get? key' = some o) : key = key' := by
  obtain ⟨n, hn, rfl⟩ := h.named hk
  obtain ⟨n', hn', rfl⟩ := h.named hk'
  rw [hn] at hn'
  cases hn'
  rfl

theorem found_iff : g.Found ↔ g.Registered := by
  constructor
  · intro hfound k n hn
    obtain ⟨n', hlookup, -⟩ := hfound k n hn
    rw [lookup_eq] at hlookup
    obtain ⟨o, ho, -⟩ := Option.bind_eq_some_iff.mp hlookup
    exact ⟨o, ho⟩
  · intro hr k n hn
    obtain ⟨o, ho⟩ := hr k n hn
    obtain ⟨n', hn', hkey⟩ := h.named ho
    refine ⟨n', ?_, hkey⟩
    rw [lookup_eq]
    exact Option.bind_eq_some_iff.mpr ⟨o, ho, hn'⟩

variable {a b : String} {qa qb : Option String}

/-- A name resolved once is known in every spelling. -/
theorem resolve_again (hkey : NameKey.ofName a qa = .ofName b qb) :
    (g.resolve a qa).2.resolve b qb = g.resolve a qa := by
  obtain ⟨-, -, hname⟩ := h.resolve_spec a qa
  rw [hkey] at hname
  exact resolve_known hname

theorem resolve_eq_iff : (g.resolve a qa).1 = ((g.resolve a qa).2.resolve b qb).1 ↔
    NameKey.ofName a qa = .ofName b qb := by
  constructor
  · intro hid
    obtain ⟨-, -, hname⟩ := h.resolve_spec a qa
    obtain ⟨hgrown, -, hname'⟩ := (h.resolve a qa).resolve_spec b qb
    rw [← hid] at hname'
    exact ((h.resolve a qa).resolve b qb).named_inj (hgrown.names hname) hname'
  · intro hkey
    rw [h.resolve_again hkey]

/-- A node is made under an id that no node has, and no other is touched. -/
theorem resolve_new (a : String) (qa : Option String) :
    (g.resolve a qa).2 = g ∨ (g.nodes.contains (g.resolve a qa).1 = false ∧
      ∀ k, k ≠ (g.resolve a qa).1 → (g.resolve a qa).2.nodes.get? k = g.nodes.get? k) := by
  cases hk : g.names.byName.get? (.ofName a qa) with
  | some id => exact Or.inl (by rw [resolve_known hk])
  | none =>
    rw [resolve_unknown hk]
    exact Or.inr ⟨h.unused_mint _ _, fun k hne => nodes_withMorph.trans (if_neg hne)⟩

end Framed

end Graph

end Morphology
