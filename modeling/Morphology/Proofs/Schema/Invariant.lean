import Morphology.Proofs.Schema.Building
import Morphology.Proofs.Schema.Hierarchy
import Morphology.Session.Basic

/-! What every schema keeps, from the one that is configured on and through each edit of its own tier: no name stands
for two definitions, what a definition mentions is there, no type is its own ancestor, and the values that are allowed
are values. -/

namespace Morphology

open Text

/-- The allowed values of an attribute type are values of its data type. -/
def Definition.Coherent : Definition → Prop
  | attributeType d => ∀ v ∈ d.allowedValues, (d.dataType.coerce v).isSome = true
  | _ => True

namespace Schema

variable {schema schema' : Schema} {kind : TypeKind} {a b key name : String} {d d' : Definition}

structure WellFormed (schema : Schema) : Prop where
  disjoint : schema.Disjoint
  keyed : schema.Keyed
  mentions : ∀ key d, schema.Stores key d → ∀ name ∈ d.mentioned, (schema.find? .nodeType name).isSome = true
  acyclic : Acyclic schema.Extends
  coherent : ∀ key d, schema.Stores key d → d.Coherent

/-- What a definition mentions is there, its values are values, and it is no parent of its own. -/
structure Supports (schema : Schema) (d : Definition) : Prop where
  mentions : ∀ name ∈ d.mentioned, (schema.find? .nodeType name).isSome = true
  coherent : d.Coherent
  parents : d.kind = .nodeType → ∀ p ∈ d.mentioned, fold p ≠ fold d.name

/-- The schema after a change that is asked for, refused or not. -/
def after (schema : Schema) (c : SchemaChange) : Schema :=
  match schema.change c with
  | .ok (_, schema') => schema'
  | .error _ => schema

/-! ## One definition more or less -/

theorem find?_shared_of_not_contains (h : schema.shared.contains d.kind d.name = false) :
    schema.shared.find? d.kind (fold d.name) = none := by
  rwa [SchemaTier.contains_eq, Option.isSome_eq_false_iff, Option.isNone_iff_eq_none] at h

theorem stores_put (h : schema.shared.contains d.kind d.name = false) : (schema.put d).Stores key d' ↔
    if d'.kind = d.kind ∧ key = fold d.name then d' = d else schema.Stores key d' := by
  simp only [Stores, put, SchemaTier.find?_put]
  split
  · rename_i hkey
    rw [hkey.1, hkey.2, find?_shared_of_not_contains h]
    simp [eq_comm]
  · rfl

theorem stores_of_erase (h : (schema.erase kind name).Stores key d) : schema.Stores key d := by
  rcases h with hshared | hown
  · exact Or.inl hshared
  · refine Or.inr ?_
    by_cases hkind : d.kind = kind
    · simp only [erase, hkind, SchemaTier.find?_erase] at hown
      split at hown
      · cases hown
      · rwa [hkind]
    · rwa [erase, SchemaTier.find?_erase_of_ne hkind] at hown

theorem stores_erase (h : schema.shared.contains kind name = false) : (schema.erase kind name).Stores key d ↔
    schema.Stores key d ∧ ¬(d.kind = kind ∧ key = fold name) := by
  rw [SchemaTier.contains_eq, Option.isSome_eq_false_iff, Option.isNone_iff_eq_none] at h
  unfold Stores Schema.erase
  by_cases hkind : d.kind = kind
  · rw [hkind, SchemaTier.find?_erase]
    by_cases hkey : key = fold name
    · simp [hkey, h]
    · simp [hkey]
  · simp [SchemaTier.find?_erase_of_ne hkind, hkind]

theorem isSome_find?_put (h : schema.shared.contains d.kind d.name = false)
    (hname : (schema.find? kind name).isSome = true) : ((schema.put d).find? kind name).isSome = true := by
  rw [find?_put h]
  split
  · rfl
  · exact hname

theorem extends_put {d : NodeType} (h : schema.shared.contains .nodeType d.name = false) :
    (schema.put (.nodeType d)).Extends a b ↔
      (a ≠ fold d.name ∧ schema.Extends a b) ∨ a = fold d.name ∧ ∃ p ∈ d.parents, fold p = b := by
  have hstores : ∀ d', (schema.put (.nodeType d)).Stores a (.nodeType d') ↔
      if (Definition.nodeType d').kind = .nodeType ∧ a = fold d.name then Definition.nodeType d' = .nodeType d
      else schema.Stores a (.nodeType d') := fun d' => stores_put h
  simp only [Extends, hstores]
  by_cases ha : a = fold d.name
  · simp [ha, Definition.kind]
  · simp [ha, Definition.kind]

theorem extends_put_of_ne (hkind : d.kind ≠ .nodeType) (h : schema.shared.contains d.kind d.name = false) :
    (schema.put d).Extends a b ↔ schema.Extends a b := by
  have hne : ∀ d' : NodeType, ¬((Definition.nodeType d').kind = d.kind ∧ a = fold d.name) :=
    fun d' hkey => hkind hkey.1.symm
  simp only [Extends, stores_put h, if_neg (hne _)]

namespace WellFormed

variable (h : schema.WellFormed)

include h

/-- Other parents for a type close a cycle just where one of them lies below the type. -/
theorem acyclic_put_iff {d : NodeType} (hshared : schema.shared.contains .nodeType d.name = false) :
    Acyclic (schema.put (.nodeType d)).Extends ↔ ∀ p ∈ d.parents, schema.isSubtype p d.name = false := by
  have hothers : Acyclic fun a b => a ≠ fold d.name ∧ schema.Extends a b := h.acyclic.mono fun a b hab => hab.2
  rw [acyclic_iff_of_arcs hothers fun a b => extends_put hshared]
  have hsame : ∀ p, Relation.ReflTransGen (schema.put (.nodeType d)).Extends (fold p) (fold d.name) ↔
      schema.isSubtype p d.name = true := by
    intro p
    rw [isSubtype_iff h.keyed h.disjoint]
    constructor
    · refine reaches_of_eq_except fun a b ha hab => ?_
      rcases (extends_put hshared).mp hab with hab | hab
      · exact hab.2
      · exact absurd hab.1 ha
    · exact reaches_of_eq_except fun a b ha hab => (extends_put hshared).mpr (Or.inl ⟨ha, hab⟩)
  constructor
  · intro hback p hp
    rw [Bool.eq_false_iff]
    intro hsub
    exact hback ⟨fold p, fold d.name, ⟨p, hp, rfl⟩, rfl, (hsame p).mpr hsub⟩
  · rintro hsub ⟨_, _, ⟨p, hp, rfl⟩, rfl, hreach⟩
    have hnot := hsub p hp
    rw [(hsame p).mp hreach] at hnot
    cases hnot

theorem acyclic_put (hshared : schema.shared.contains d.kind d.name = false)
    (hbelow : d.kind = .nodeType → ∀ p ∈ d.mentioned, schema.isSubtype p d.name = false) :
    Acyclic (schema.put d).Extends := by
  cases d with
  | nodeType d => exact (h.acyclic_put_iff hshared).mpr (hbelow rfl)
  | relationType d => exact h.acyclic.mono fun a b => (extends_put_of_ne (by simp [Definition.kind]) hshared).mp
  | attributeType d => exact h.acyclic.mono fun a b => (extends_put_of_ne (by simp [Definition.kind]) hshared).mp

/-- Nothing mentions a name that is free, so no other type lies below it. -/
theorem isSubtype_of_free (hfree : schema.find? .nodeType name = none) {p : String} (hp : fold p ≠ fold name) :
    schema.isSubtype p name = false := by
  rw [Bool.eq_false_iff, Ne, isSubtype_iff h.keyed h.disjoint]
  intro hreach
  rcases Relation.ReflTransGen.cases_tail hreach with hself | ⟨b, -, d, hd, q, hq, hname⟩
  · exact hp hself.symm
  · have hfound := h.mentions b _ hd q hq
    rw [find?_congr hname, hfree] at hfound
    cases hfound

theorem put (hshared : schema.shared.contains d.kind d.name = false) (hsupports : schema.Supports d)
    (hbelow : d.kind = .nodeType → ∀ p ∈ d.mentioned, schema.isSubtype p d.name = false) :
    (schema.put d).WellFormed where
  disjoint kind key := by
    by_cases hkey : kind = d.kind ∧ key = fold d.name
    · obtain ⟨rfl, rfl⟩ := hkey
      exact Or.inl (find?_shared_of_not_contains hshared)
    · have hone := h.disjoint kind key
      simp only [Schema.put, SchemaTier.find?_put, if_neg hkey]
      exact hone
  keyed := h.keyed.put d
  mentions key d' hd' name hname := by
    rw [stores_put hshared] at hd'
    split at hd'
    · rw [hd'] at hname
      exact isSome_find?_put hshared (hsupports.mentions name hname)
    · exact isSome_find?_put hshared (h.mentions key d' hd' name hname)
  acyclic := h.acyclic_put hshared hbelow
  coherent key d' hd' := by
    rw [stores_put hshared] at hd'
    split at hd'
    · rw [hd']
      exact hsupports.coherent
    · exact h.coherent key d' hd'

theorem erase
    (hunused : kind = .nodeType → ∀ key d, schema.Stores key d → ∀ n ∈ d.mentioned, fold n ≠ fold name) :
    (schema.erase kind name).WellFormed where
  disjoint kind' key := by
    rcases h.disjoint kind' key with hnone | hnone
    · exact Or.inl hnone
    · refine Or.inr ?_
      by_cases hkind : kind' = kind
      · rw [hkind, Schema.erase, SchemaTier.find?_erase, ← hkind, hnone, ite_self]
      · rw [Schema.erase, SchemaTier.find?_erase_of_ne hkind, hnone]
  keyed := h.keyed.erase kind name
  mentions key d hd n hn := by
    have hstored := stores_of_erase hd
    rw [find?_erase fun hkey => hunused hkey.1.symm key d hstored n hn hkey.2]
    exact h.mentions key d hstored n hn
  acyclic := h.acyclic.mono fun a b ⟨d, hd, hp⟩ => ⟨d, stores_of_erase hd, hp⟩
  coherent key d hd := h.coherent key d (stores_of_erase hd)

end WellFormed

/-! ## What an edit has checked -/

theorem coherent_of_check {d : AttributeType} (h : d.check = .ok ()) : (Definition.attributeType d).Coherent := by
  unfold AttributeType.check at h
  split at h
  · cases h
  · rename_i hnone
    intro v hv
    have hv := List.find?_eq_none.mp hnone v hv
    simpa [← Option.isSome_iff_ne_none] using hv

theorem mentions_of_checkMentioned {d : RelationType} (h : schema.checkMentioned d = .ok ()) :
    ∀ name ∈ d.mentioned, (schema.find? .nodeType name).isSome = true := by
  unfold checkMentioned at h
  split at h
  · cases h
  · rename_i hnone
    intro name hname
    have hname := List.find?_eq_none.mp hnone name hname
    rw [find?_nodeType, Option.isSome_map]
    simpa [← Option.isSome_iff_ne_none] using hname

theorem checkParents_eq_ok_iff {d : NodeType} {parents : List String} : schema.checkParents d parents = .ok () ↔
    ∀ p ∈ parents, fold p ≠ fold d.name ∧ (schema.find? .nodeType p).isSome = true := by
  induction parents with
  | nil => simp [checkParents]
  | cons p parents ih =>
    rw [checkParents, List.forall_mem_cons, ← ih, find?_nodeType, Option.isSome_map]
    by_cases hself : fold p = fold d.name
    · simp [hself]
    · cases hfound : schema.nodeType? p <;> simp [hself]

theorem supports_nodeType {d : NodeType} (h : schema.checkParents d d.parents = .ok ()) : schema.Supports (.nodeType d) :=
  ⟨fun p hp => (checkParents_eq_ok_iff.mp h p hp).2, trivial, fun _ p hp => (checkParents_eq_ok_iff.mp h p hp).1⟩

theorem supports_relationType {d : RelationType} (h : schema.checkMentioned d = .ok ()) :
    schema.Supports (.relationType d) :=
  ⟨mentions_of_checkMentioned h, trivial, nofun⟩

theorem supports_attributeType {d : AttributeType} (h : d.check = .ok ()) : schema.Supports (.attributeType d) :=
  ⟨nofun, coherent_of_check h, nofun⟩

theorem supports_of_create (h : schema.create d = .ok schema') : schema.Supports d.tidied := by
  cases d with
  | nodeType d =>
    simp only [create, createNodeType, bind_eq_ok] at h
    obtain ⟨name, hname, _, hchecked, -⟩ := h
    obtain ⟨rfl, -⟩ := checkNewName_eq_ok hname
    exact supports_nodeType hchecked
  | relationType d =>
    simp only [create, createRelationType, bind_eq_ok] at h
    obtain ⟨name, hname, _, hchecked, -⟩ := h
    obtain ⟨rfl, -⟩ := checkNewName_eq_ok hname
    exact supports_relationType hchecked
  | attributeType d =>
    simp only [create, createAttributeType, bind_eq_ok] at h
    obtain ⟨name, hname, _, hchecked, -⟩ := h
    obtain ⟨rfl, -⟩ := checkNewName_eq_ok hname
    exact supports_attributeType hchecked

theorem supports_of_update (h : schema.update d = .ok schema') : schema.Supports d.tidied ∧
    (d.tidied.kind = .nodeType → ∀ p ∈ d.tidied.mentioned, schema.isSubtype p d.tidied.name = false) := by
  cases d with
  | nodeType d =>
    simp only [update, updateNodeType, bind_eq_ok] at h
    obtain ⟨_, -, _, hchecked, h⟩ := h
    split at h
    · cases h
    · rename_i hbelow
      refine ⟨supports_nodeType hchecked, fun _ p hp => ?_⟩
      exact Bool.eq_false_iff.mpr fun hsub => hbelow (List.any_eq_true.mpr ⟨p, hp, hsub⟩)
  | relationType d =>
    simp only [update, updateRelationType, bind_eq_ok] at h
    obtain ⟨_, -, _, hchecked, -⟩ := h
    exact ⟨supports_relationType hchecked, fun hkind => by cases hkind⟩
  | attributeType d =>
    simp only [update, updateAttributeType, bind_eq_ok] at h
    obtain ⟨_, -, _, hchecked, -⟩ := h
    exact ⟨supports_attributeType hchecked, fun hkind => by cases hkind⟩

theorem mem_nodeTypes {d : NodeType} (h : schema.Stores key (.nodeType d)) :
    ∃ tier, (tier, d) ∈ schema.nodeTypes := by
  rcases stores_nodeType.mp h with hd | hd
  · exact ⟨.global, List.mem_append_left _ (List.mem_map.mpr ⟨d, Table.mem_values.mpr ⟨key, hd⟩, rfl⟩)⟩
  · exact ⟨.user, List.mem_append_right _ (List.mem_map.mpr ⟨d, Table.mem_values.mpr ⟨key, hd⟩, rfl⟩)⟩

theorem mem_relationTypes {d : RelationType} (h : schema.Stores key (.relationType d)) :
    ∃ tier, (tier, d) ∈ schema.relationTypes := by
  simp only [Stores, SchemaTier.find?, Definition.kind, Option.map_eq_some_iff, Definition.relationType.injEq,
    exists_eq_right] at h
  rcases h with hd | hd
  · exact ⟨.global, List.mem_append_left _ (List.mem_map.mpr ⟨d, Table.mem_values.mpr ⟨key, hd⟩, rfl⟩)⟩
  · exact ⟨.user, List.mem_append_right _ (List.mem_map.mpr ⟨d, Table.mem_values.mpr ⟨key, hd⟩, rfl⟩)⟩

/-- A node type without uses is not mentioned, in whichever tier. -/
theorem not_mentioned_of_nodeTypeUses (h : schema.nodeTypeUses name = 0) (hd : schema.Stores key d) :
    ∀ n ∈ d.mentioned, fold n ≠ fold name := by
  obtain ⟨hchildren, hrelations⟩ := Nat.add_eq_zero_iff.mp h
  rw [List.length_eq_zero_iff, List.filter_eq_nil_iff] at hchildren hrelations
  intro n hn hname
  cases d with
  | nodeType d =>
    obtain ⟨tier, hmem⟩ := mem_nodeTypes hd
    exact hchildren _ hmem (List.any_eq_true.mpr ⟨n, hn, beq_iff_eq.mpr hname⟩)
  | relationType d =>
    obtain ⟨tier, hmem⟩ := mem_relationTypes hd
    exact hrelations _ hmem (List.any_eq_true.mpr ⟨n, hn, beq_iff_eq.mpr hname⟩)
  | attributeType d => cases hn

theorem nodeTypeUses_of_delete (h : schema.delete .nodeType name = .ok (d, schema')) :
    schema.nodeTypeUses name = 0 := by
  simp only [delete, map_eq_ok, deleteNodeType, bind_eq_ok] at h
  obtain ⟨p, ⟨_, -, hdelete⟩, -⟩ := h
  split at hdelete
  · cases hdelete
  · omega

/-! ## Runs of edits -/

namespace WellFormed

theorem create (h : schema.WellFormed) (hcreate : schema.create d = .ok schema') : schema'.WellFormed := by
  obtain ⟨hfree, rfl⟩ := create_eq_ok hcreate
  have hsupports := supports_of_create hcreate
  refine h.put (shared_of_find?_none hfree) hsupports fun hkind p hp => ?_
  rw [hkind] at hfree
  exact h.isSubtype_of_free hfree (hsupports.parents hkind p hp)

theorem update (h : schema.WellFormed) (hupdate : schema.update d = .ok schema') : schema'.WellFormed := by
  obtain ⟨hshared, rfl⟩ := update_eq_ok hupdate
  obtain ⟨hsupports, hbelow⟩ := supports_of_update hupdate
  exact h.put hshared hsupports hbelow

/-- A type that can be edited gets other parents unless one of them is unknown or they close a cycle. -/
theorem update_nodeType_iff (h : schema.WellFormed) (d : NodeType) :
    (∃ schema', schema.update (.nodeType d) = .ok schema') ↔
      schema.checkEditable .nodeType (collapse d.name) = .ok () ∧
        (∀ p ∈ d.parents, (schema.find? .nodeType p).isSome = true) ∧
        Acyclic (schema.put (Definition.nodeType d).tidied).Extends := by
  constructor
  · rintro ⟨schema', hupdate⟩
    obtain ⟨hsupports, hbelow⟩ := supports_of_update hupdate
    have hacyclic := h.acyclic_put (update_eq_ok hupdate).1 hbelow
    simp only [Schema.update, updateNodeType, bind_eq_ok] at hupdate
    obtain ⟨_, heditable, -⟩ := hupdate
    exact ⟨heditable, hsupports.mentions, hacyclic⟩
  · rintro ⟨heditable, hknown, hacyclic⟩
    have hshared : schema.shared.contains .nodeType (collapse d.name) = false := checkEditable_eq_ok heditable
    have hbelow : ∀ p ∈ d.parents, schema.isSubtype p (collapse d.name) = false :=
      (h.acyclic_put_iff (d := { d with name := collapse d.name }) hshared).mp hacyclic
    have hparents : schema.checkParents { d with name := collapse d.name } d.parents = .ok () := by
      refine checkParents_eq_ok_iff.mpr fun p hp => ⟨fun hself => ?_, hknown p hp⟩
      have hnot := hbelow p hp
      rw [isSubtype, hself] at hnot
      simp at hnot
    have hany : (d.parents.any fun p => schema.isSubtype p (collapse d.name)) = false := by
      rw [List.any_eq_false]
      intro p hp
      rw [hbelow p hp]
      decide
    refine ⟨schema.put (Definition.nodeType d).tidied, ?_⟩
    simp only [Schema.update, updateNodeType, heditable, hparents, hany, bind, Except.bind]
    rfl

theorem delete (h : schema.WellFormed) (hdelete : schema.delete kind name = .ok (d, schema')) :
    schema'.WellFormed := by
  rw [delete_eq_ok hdelete]
  refine h.erase fun hkind => ?_
  subst hkind
  exact fun key d hd => not_mentioned_of_nodeTypeUses (nodeTypeUses_of_delete hdelete) hd

theorem change (h : schema.WellFormed) {c : SchemaChange} {out : Option Definition}
    (hchange : schema.change c = .ok (out, schema')) : schema'.WellFormed := by
  cases c with
  | create d =>
    obtain ⟨new, hcreate, hnew⟩ := map_eq_ok.mp hchange
    cases hnew
    exact h.create hcreate
  | update d =>
    obtain ⟨new, hupdate, hnew⟩ := map_eq_ok.mp hchange
    cases hnew
    exact h.update hupdate
  | delete kind name =>
    obtain ⟨⟨d, new⟩, hdelete, hnew⟩ := map_eq_ok.mp hchange
    cases hnew
    exact h.delete hdelete

theorem after (h : schema.WellFormed) (c : SchemaChange) : (schema.after c).WellFormed := by
  unfold Schema.after
  split
  · rename_i hchange
    exact h.change hchange
  · exact h

theorem foldl_after (h : schema.WellFormed) (cs : List SchemaChange) : (cs.foldl Schema.after schema).WellFormed := by
  induction cs generalizing schema with
  | nil => exact h
  | cons c cs ih => exact ih (h.after c)

end WellFormed

/-! ## The configured tier -/

theorem coherent_of_defines {plan : SchemaPlan} (h : plan.Defines d) : d.Coherent := by
  cases d with
  | nodeType d => trivial
  | relationType d => trivial
  | attributeType d =>
    obtain ⟨p, -, hresolve⟩ := h
    unfold AttributePlan.resolve at hresolve
    simp only at hresolve
    split at hresolve
    · cases hresolve
    · split at hresolve
      · cases hresolve
      · rename_i hcheck
        cases hresolve
        exact coherent_of_check hcheck

section Configured

variable {plan : SchemaPlan} {tier : SchemaTier}

theorem checkMentions_of_build (h : plan.build = .ok tier) : tier.checkMentions = .ok () := by
  obtain ⟨attributes, -, -, -, hchecked⟩ := SchemaPlan.build_eq_ok_iff.mp h
  exact hchecked

theorem checkMentions_eq_ok_iff : tier.checkMentions = .ok () ↔
    tier.unknownParent? = none ∧ tier.ownAncestor? = none ∧ tier.unknownMention? = none := by
  unfold SchemaTier.checkMentions
  split <;> simp_all

theorem stores_shared : (⟨tier, {}⟩ : Schema).Stores key d ↔ tier.find? d.kind key = some d := by
  have hown : ({} : SchemaTier).find? d.kind key = none := by cases d <;> rfl
  simp [Stores, hown]

theorem coherent_of_build (h : plan.build = .ok tier) : ∀ key d, tier.find? d.kind key = some d → d.Coherent := by
  refine SchemaPlan.build_induction (P := fun tier => ∀ key d, tier.find? d.kind key = some d → d.Coherent) ?_ ?_ h
  · intro key d hd
    cases d <;> cases hd
  · intro tier d hd htier key d' hd'
    rw [SchemaTier.find?_put] at hd'
    split at hd'
    · cases hd'
      exact coherent_of_defines hd
    · exact htier key d' hd'

theorem mentions_of_checkMentions (h : tier.checkMentions = .ok ()) (hd : tier.find? d.kind key = some d) :
    ∀ name ∈ d.mentioned, ((⟨tier, {}⟩ : Schema).find? .nodeType name).isSome = true := by
  obtain ⟨hparents, -, hmentions⟩ := checkMentions_eq_ok_iff.mp h
  have hfound : ∀ name, ((⟨tier, {}⟩ : Schema).find? .nodeType name).isSome = (tier.nodeType? name).isSome := by
    intro name
    simp [find?, SchemaTier.find?, SchemaTier.nodeType?, Table.get?_empty]
  intro name hname
  rw [hfound, Option.isSome_iff_ne_none]
  cases d with
  | nodeType d =>
    obtain ⟨d', hd', hsame⟩ := Option.map_eq_some_iff.mp hd
    cases hsame
    have hnone := List.findSome?_eq_none_iff.mp hparents d (Table.mem_values.mpr ⟨key, hd'⟩)
    simpa using List.find?_eq_none.mp hnone name hname
  | relationType d =>
    obtain ⟨d', hd', hsame⟩ := Option.map_eq_some_iff.mp hd
    cases hsame
    have hnone := List.findSome?_eq_none_iff.mp hmentions d (Table.mem_values.mpr ⟨key, hd'⟩)
    simpa using List.find?_eq_none.mp (Option.map_eq_none_iff.mp hnone) name hname
  | attributeType d => cases hname

theorem nodeTypes_shared : (⟨tier, {}⟩ : Schema).nodeTypes.map (·.2) = tier.nodeTypes.values := by
  simp [nodeTypes, Table.values, Function.comp_def]
  rfl

theorem disjoint_shared : (⟨tier, {}⟩ : Schema).Disjoint := fun kind key => Or.inr (by cases kind <;> rfl)

/-- A type is its own ancestor just where there is a cycle, and then every type on the cycle is. -/
theorem ownAncestor?_eq_none_iff (hkeyed : (⟨tier, {}⟩ : Schema).Keyed) :
    tier.ownAncestor? = none ↔ Acyclic (⟨tier, {}⟩ : Schema).Extends := by
  have harcs : Arc (parentArcs tier.nodeTypes.values) = (⟨tier, {}⟩ : Schema).Extends := by
    rw [← nodeTypes_shared]
    funext a b
    exact propext (arc_iff_extends hkeyed disjoint_shared)
  have hstores : ∀ {key} {d : NodeType}, (⟨tier, {}⟩ : Schema).Stores key (.nodeType d) ↔
      tier.nodeTypes.get? key = some d := by
    simp [stores_shared, SchemaTier.find?, Definition.kind]
  have hname : ∀ {key} {d : NodeType}, tier.nodeTypes.get? key = some d → fold d.name = key := by
    intro key d hd
    exact hkeyed.shared .nodeType key (.nodeType d) (stores_shared.mp (hstores.mpr hd))
  rw [SchemaTier.ownAncestor?, Option.map_eq_none_iff, List.find?_eq_none]
  simp only [leadsTo_iff, harcs]
  constructor
  · intro hnone a hcycle
    obtain ⟨b, ⟨d, hd, p, hp, rfl⟩, hreach⟩ := Relation.TransGen.head'_iff.mp hcycle
    have hd := hstores.mp hd
    refine hnone d (Table.mem_values.mpr ⟨a, hd⟩) ⟨p, hp, ?_⟩
    rwa [hname hd]
  · rintro hacyclic d hmem ⟨p, hp, hreach⟩
    obtain ⟨key, hd⟩ := Table.mem_values.mp hmem
    rw [hname hd] at hreach
    exact hacyclic key (.head' ⟨d, hstores.mpr hd, p, hp, rfl⟩ hreach)

theorem wellFormed_of_build (h : plan.build = .ok tier) : (⟨tier, {}⟩ : Schema).WellFormed := by
  have hchecked := checkMentions_of_build h
  have hkeyed : (⟨tier, {}⟩ : Schema).Keyed := ⟨SchemaPlan.keyed_build h, SchemaTier.keyed_empty⟩
  exact {
    disjoint := disjoint_shared
    keyed := hkeyed
    mentions := fun key d hd => mentions_of_checkMentions hchecked (stores_shared.mp hd)
    acyclic := (ownAncestor?_eq_none_iff hkeyed).mp (checkMentions_eq_ok_iff.mp hchecked).2.1
    coherent := fun key d hd => coherent_of_build h key d (stores_shared.mp hd) }

/-- What the configured tier promises, and every schema that edits lead to from there. An edit that is refused leaves
the schema as it was. -/
theorem wellFormed_of_changes (h : plan.build = .ok tier) (cs : List SchemaChange) :
    (cs.foldl Schema.after ⟨tier, {}⟩).WellFormed ∧ ∀ (c : SchemaChange) (s s' : Session) (e : SessionError),
      Action.editSchema (fun schema => schema.change c) s = .error e s' → s'.schema = s.schema := by
  refine ⟨(wellFormed_of_build h).foldl_after cs, fun c s s' e hrefused => ?_⟩
  rw [Action.editSchema_refused hrefused]

end Configured

def birds : SchemaPlan where
  nodeTypes := [{ name := "animal" }, { name := "bird", parents := ["Animal"] }]
  relationTypes := [{ name := "eats", domain := ["bird"], range := ["animal"] }]
  attributeTypes := [{ name := "age", dataType := "number", allowedValues := ["1", "2"] }]

def birdTypes : SchemaTier := birds.build.toOption.getD {}

/-- The third and the fourth of these edits are refused. -/
def crows : List SchemaChange :=
  [.create (.nodeType { name := "Crow", parents := ["Bird"] }),
    .create (.nodeType { name := "rook", parents := ["crow"] }),
    .update (.nodeType { name := "crow", parents := ["rook"] }),
    .delete .nodeType "crow",
    .update (.nodeType { name := "rook", parents := ["bird"] })]

theorem wellFormed_crows : birds.build = .ok birdTypes ∧
    (crows.foldl Schema.after ⟨birdTypes, {}⟩).own.nodeTypes.values =
      [{ name := "Crow", parents := ["Bird"] }, { name := "rook", parents := ["bird"] }] ∧
    (crows.foldl Schema.after ⟨birdTypes, {}⟩).WellFormed := by
  have hbuild : birds.build = .ok birdTypes := by decide +kernel
  exact ⟨hbuild, by decide +kernel, (wellFormed_of_changes hbuild crows).1⟩

end Schema

end Morphology
