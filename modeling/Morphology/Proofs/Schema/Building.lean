import Mathlib.Data.List.Forall2
import Morphology.Proofs.Schema
import Morphology.Schema.Plan

/-! How a tier is made of what is configured. The definitions are put in one after the other, each under a name that is
free, and what they mention is looked for afterwards. -/

namespace Morphology

open Text

theorem exists_forall₂_cons {α β : Type} {R : α → β → Prop} {a : α} {as : List α} {P : List β → Prop} :
    (∃ bs, List.Forall₂ R (a :: as) bs ∧ P bs) ↔ ∃ b, R a b ∧ ∃ bs, List.Forall₂ R as bs ∧ P (b :: bs) := by
  simp only [List.forall₂_cons_left_iff]
  constructor
  · rintro ⟨_, ⟨b, bs, hb, hbs, rfl⟩, hP⟩
    exact ⟨b, hb, bs, hbs, hP⟩
  · rintro ⟨b, hb, bs, hbs, hP⟩
    exact ⟨_, ⟨b, bs, hb, hbs, rfl⟩, hP⟩

/-! ## Definitions put in one after the other -/

/-- The definitions are not filed under one name. -/
def Definition.Apart (d e : Definition) : Prop := ¬(d.kind = e.kind ∧ fold d.name = fold e.name)

namespace SchemaTier

variable {tier tier' : SchemaTier} {d : Definition} {ds es : List Definition} {kind : TypeKind} {key : String}

/-- Each definition finds its name free behind those before it. -/
def Takes (tier : SchemaTier) : List Definition → Prop
  | [] => True
  | d :: ds => tier.find? d.kind (fold d.name) = none ∧ (tier.put d).Takes ds

theorem takes_append : tier.Takes (ds ++ es) ↔ tier.Takes ds ∧ (ds.foldl put tier).Takes es := by
  induction ds generalizing tier with
  | nil => simp [Takes]
  | cons d ds ih => rw [List.cons_append, Takes, Takes, ih, List.foldl_cons, and_assoc]

theorem find?_foldl_put (h : tier.Takes ds) : (ds.foldl put tier).find? kind key = some d ↔
    tier.find? kind key = some d ∨ d ∈ ds ∧ d.kind = kind ∧ fold d.name = key := by
  induction ds generalizing tier with
  | nil => simp
  | cons e ds ih =>
    obtain ⟨hfree, hrest⟩ := h
    rw [List.foldl_cons, ih hrest, find?_put, List.mem_cons]
    by_cases hkey : kind = e.kind ∧ key = fold e.name
    · obtain ⟨rfl, rfl⟩ := hkey
      rw [if_pos ⟨rfl, rfl⟩, hfree]
      constructor
      · rintro (hd | hd)
        · cases hd
          exact Or.inr ⟨Or.inl rfl, rfl, rfl⟩
        · exact Or.inr ⟨Or.inr hd.1, hd.2⟩
      · rintro (hd | ⟨rfl | hd, hkind⟩)
        · cases hd
        · exact Or.inl rfl
        · exact Or.inr ⟨hd, hkind⟩
    · rw [if_neg hkey]
      constructor
      · rintro (hd | hd)
        · exact Or.inl hd
        · exact Or.inr ⟨Or.inr hd.1, hd.2⟩
      · rintro (hd | ⟨rfl | hd, hkind, hname⟩)
        · exact Or.inl hd
        · exact absurd ⟨hkind.symm, hname.symm⟩ hkey
        · exact Or.inr ⟨hd, hkind, hname⟩

theorem takes_iff : tier.Takes ds ↔
    (∀ d ∈ ds, tier.find? d.kind (fold d.name) = none) ∧ ds.Pairwise Definition.Apart := by
  induction ds generalizing tier with
  | nil => simp [Takes]
  | cons d ds ih =>
    have hput : ∀ e : Definition, (tier.put d).find? e.kind (fold e.name) = none ↔
        d.Apart e ∧ tier.find? e.kind (fold e.name) = none := by
      intro e
      rw [find?_put, Definition.Apart, eq_comm (a := d.kind), eq_comm (a := fold d.name)]
      by_cases hkey : e.kind = d.kind ∧ fold e.name = fold d.name
      · simp [hkey]
      · simp [hkey]
    rw [Takes, ih, List.forall_mem_cons, List.pairwise_cons]
    simp only [hput, forall₂_and]
    tauto

theorem takes_empty : Takes {} ds ↔ ds.Pairwise Definition.Apart := by
  have hfree : ∀ d ∈ ds, SchemaTier.find? {} d.kind (fold d.name) = none := by
    intro d _
    cases d <;> rfl
  rw [takes_iff]
  exact and_iff_right hfree

theorem addNodeTypes_eq_ok_iff {ds : List NodeType} : tier.addNodeTypes ds = .ok tier' ↔
    tier.Takes (ds.map .nodeType) ∧ (ds.map .nodeType).foldl put tier = tier' := by
  induction ds generalizing tier with
  | nil => simp [addNodeTypes, Takes]
  | cons d ds ih =>
    have hfree : tier.find? .nodeType (fold d.name) = none ↔ (tier.nodeType? d.name).isSome = false := by
      simp [find?, nodeType?]
    rw [addNodeTypes, List.map_cons, Takes, List.foldl_cons]
    simp only [Definition.kind, Definition.name, hfree]
    cases hname : (tier.nodeType? d.name).isSome with
    | true => simp
    | false => simpa [put] using ih

theorem addRelationTypes_eq_ok_iff {ds : List RelationType} : tier.addRelationTypes ds = .ok tier' ↔
    tier.Takes (ds.map .relationType) ∧ (ds.map .relationType).foldl put tier = tier' := by
  induction ds generalizing tier with
  | nil => simp [addRelationTypes, Takes]
  | cons d ds ih =>
    have hfree : tier.find? .relationType (fold d.name) = none ↔ (tier.relationType? d.name).isSome = false := by
      simp [find?, relationType?]
    rw [addRelationTypes, List.map_cons, Takes, List.foldl_cons]
    simp only [Definition.kind, Definition.name, hfree]
    cases hname : (tier.relationType? d.name).isSome with
    | true => simp
    | false => simpa [put] using ih

theorem addAttributeTypes_eq_ok_iff {ps : List AttributePlan} : tier.addAttributeTypes ps = .ok tier' ↔
    ∃ ds, List.Forall₂ (fun p d => AttributePlan.resolve p = .ok d) ps ds ∧
      tier.Takes (ds.map .attributeType) ∧ (ds.map .attributeType).foldl put tier = tier' := by
  induction ps generalizing tier with
  | nil => simp [addAttributeTypes, Takes]
  | cons p ps ih =>
    rw [addAttributeTypes, exists_forall₂_cons]
    cases hresolve : p.resolve with
    | error e => simp
    | ok d =>
      have hfree : tier.find? .attributeType (fold d.name) = none ↔ (tier.attributeType? d.name).isSome = false := by
        simp [find?, attributeType?]
      simp only [Except.ok.injEq, exists_eq_left', List.map_cons, Takes, List.foldl_cons, Definition.kind,
        Definition.name, hfree]
      cases hname : (tier.attributeType? d.name).isSome with
      | true => simp
      | false => simpa [put] using ih

end SchemaTier

/-! ## Configured definitions -/

namespace SchemaPlan

variable {plan : SchemaPlan} {tier : SchemaTier} {d : Definition} {attributes : List AttributeType}

/-- The definition is one of those configured. -/
def Defines (plan : SchemaPlan) : Definition → Prop
  | .nodeType d => d ∈ plan.nodeTypes
  | .relationType d => d ∈ plan.relationTypes
  | .attributeType d => ∃ p ∈ plan.attributeTypes, p.resolve = .ok d

/-- All that is configured, where the attribute types were read as `attributes`. -/
def definitions (plan : SchemaPlan) (attributes : List AttributeType) : List Definition :=
  plan.nodeTypes.map .nodeType ++ (plan.relationTypes.map .relationType ++ attributes.map .attributeType)

/-- The attribute types as they are read. -/
def Reads (plan : SchemaPlan) (attributes : List AttributeType) : Prop :=
  List.Forall₂ (fun p d => p.resolve = .ok d) plan.attributeTypes attributes

theorem build_eq_ok_iff : plan.build = .ok tier ↔ ∃ attributes, plan.Reads attributes ∧
    SchemaTier.Takes {} (plan.definitions attributes) ∧ (plan.definitions attributes).foldl SchemaTier.put {} = tier ∧
      tier.checkMentions = .ok () := by
  simp only [build, bind_eq_ok, SchemaTier.addNodeTypes_eq_ok_iff, SchemaTier.addRelationTypes_eq_ok_iff,
    SchemaTier.addAttributeTypes_eq_ok_iff, definitions, SchemaTier.takes_append, List.foldl_append, Reads]
  constructor
  · rintro ⟨_, ⟨hnodes, rfl⟩, _, ⟨hrelations, rfl⟩, added, ⟨attributes, hread, hattributes, rfl⟩, hchecked⟩
    split at hchecked
    · cases hchecked
    · rename_i hok
      cases hchecked
      exact ⟨attributes, hread, ⟨hnodes, hrelations, hattributes⟩, rfl, hok⟩
  · rintro ⟨attributes, hread, ⟨hnodes, hrelations, hattributes⟩, rfl, hok⟩
    refine ⟨_, ⟨hnodes, rfl⟩, _, ⟨hrelations, rfl⟩, _, ⟨attributes, hread, hattributes, rfl⟩, ?_⟩
    rw [hok]
    rfl

theorem Reads.mem (h : plan.Reads attributes) {d : AttributeType} :
    d ∈ attributes ↔ ∃ p ∈ plan.attributeTypes, p.resolve = .ok d := by
  have hmem : ∀ {ps : List AttributePlan} {ds : List AttributeType},
      List.Forall₂ (fun p d => p.resolve = .ok d) ps ds → (d ∈ ds ↔ ∃ p ∈ ps, p.resolve = .ok d) := by
    intro ps ds hread
    induction hread with
    | nil => simp
    | cons hresolve _ ih => simp [ih, hresolve, eq_comm]
  exact hmem h

theorem Reads.mem_definitions (h : plan.Reads attributes) : d ∈ plan.definitions attributes ↔ plan.Defines d := by
  cases d <;> simp [definitions, Defines, h.mem]

/-- What holds of an empty tier and outlasts each of the configured definitions holds of the tier they make. -/
theorem build_induction {P : SchemaTier → Prop} (hempty : P {})
    (hput : ∀ tier d, plan.Defines d → P tier → P (tier.put d)) (h : plan.build = .ok tier) : P tier := by
  obtain ⟨attributes, hread, -, rfl, -⟩ := build_eq_ok_iff.mp h
  exact List.foldlRecOn _ _ hempty fun tier htier d hd => hput tier d (hread.mem_definitions.mp hd) htier

theorem keyed_build (h : plan.build = .ok tier) : tier.Keyed :=
  build_induction SchemaTier.keyed_empty (fun _ d _ ht => ht.put d) h

end SchemaPlan

end Morphology
