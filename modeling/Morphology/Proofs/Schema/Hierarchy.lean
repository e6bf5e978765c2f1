import Morphology.Proofs.Schema
import Morphology.Proofs.Search

/-! The node types above a node type, by their folded names. What is asked of a schema by searching through parents is
whether one type lies above another. -/

namespace Morphology

open Text

theorem arcsFrom_append {α : Type} [DecidableEq α] (a : α) (arcs arcs' : List (α × List α)) :
    arcsFrom a (arcs ++ arcs') = (arcsFrom a arcs).or (arcsFrom a arcs') := by
  induction arcs with
  | nil => rfl
  | cons arc arcs ih =>
    rw [List.cons_append, arcsFrom, arcsFrom, ih]
    by_cases ha : arc.1 = a
    · rw [if_pos ha, if_pos ha, Option.some_or]
    · rw [if_neg ha, if_neg ha]

theorem leadsTo_iff {types : List NodeType} {goal : String} {names : List String} :
    leadsTo types goal names = true ↔
      ∃ n ∈ names, Relation.ReflTransGen (Arc (parentArcs types)) (fold n) (fold goal) := by
  simp [leadsTo, isSome_search_iff]

namespace SchemaTier

variable {tier : SchemaTier}

/-- Types are found by their names, as they are filed under them. -/
theorem Keyed.arcsFrom (h : tier.Keyed) (key : String) :
    arcsFrom key (parentArcs tier.nodeTypes.values) =
      (tier.nodeTypes.get? key).map fun d => d.parents.map fold := by
  have harcs : parentArcs tier.nodeTypes.values =
      tier.nodeTypes.entries.map fun e => (e.1, e.2.parents.map fold) := by
    rw [parentArcs, Table.values, List.map_map]
    refine List.map_congr_left fun e he => ?_
    have hkey : fold e.2.name = e.1 := by
      refine h .nodeType e.1 (.nodeType e.2) ?_
      rw [find?, Table.mem_entries.mp he, Option.map_some]
    rw [Function.comp, hkey]
  rw [harcs, Table.arcsFrom_entries tier.nodeTypes fun d => d.parents.map fold]

end SchemaTier

namespace Definition

/-- The node types that a definition names. -/
def mentioned : Definition → List String
  | nodeType d => d.parents
  | relationType d => d.mentioned
  | attributeType _ => []

end Definition

namespace Schema

variable {schema : Schema} {a b key name : String} {d : Definition}

/-- The definition stands in one of the tiers. -/
def Stores (schema : Schema) (key : String) (d : Definition) : Prop :=
  schema.shared.find? d.kind key = some d ∨ schema.own.find? d.kind key = some d

/-- A type extends its parents, in whichever tier it stands. -/
def Extends (schema : Schema) (a b : String) : Prop :=
  ∃ d, schema.Stores a (.nodeType d) ∧ ∃ p ∈ d.parents, fold p = b

/-- No name is taken in both tiers. -/
def Disjoint (schema : Schema) : Prop :=
  ∀ kind key, schema.shared.find? kind key = none ∨ schema.own.find? kind key = none

theorem stores_nodeType {d : NodeType} : schema.Stores key (.nodeType d) ↔
    schema.shared.nodeTypes.get? key = some d ∨ schema.own.nodeTypes.get? key = some d := by
  simp [Stores, SchemaTier.find?, Definition.kind]

theorem arcsFrom_parentArcs (h : schema.Keyed) (key : String) :
    arcsFrom key (parentArcs (schema.nodeTypes.map (·.2))) =
      ((schema.shared.nodeTypes.get? key).or (schema.own.nodeTypes.get? key)).map fun d => d.parents.map fold := by
  have harcs : parentArcs (schema.nodeTypes.map (·.2)) =
      parentArcs schema.shared.nodeTypes.values ++ parentArcs schema.own.nodeTypes.values := by
    simp [nodeTypes, parentArcs, Function.comp_def]
  rw [harcs, arcsFrom_append, h.shared.arcsFrom, h.own.arcsFrom, Option.map_or]

theorem Disjoint.or_eq_some_iff (h : schema.Disjoint) {d : NodeType} :
    (schema.shared.nodeTypes.get? key).or (schema.own.nodeTypes.get? key) = some d ↔
      schema.Stores key (.nodeType d) := by
  rw [stores_nodeType]
  have hone := h .nodeType key
  simp only [SchemaTier.find?, Option.map_eq_none_iff] at hone
  rcases hone with hnone | hnone <;> simp [hnone]

theorem nodeType?_eq (schema : Schema) (name : String) : schema.nodeType? name =
    (schema.shared.nodeTypes.get? (fold name)).or (schema.own.nodeTypes.get? (fold name)) := by
  simp only [nodeType?, findNodeType, SchemaTier.nodeType?]
  cases schema.shared.nodeTypes.get? (fold name) <;> cases schema.own.nodeTypes.get? (fold name) <;> rfl

theorem Disjoint.extends_iff (h : schema.Disjoint) {sub : String} : schema.Extends (fold sub) b ↔
    ∃ p ∈ ((schema.nodeType? sub).map (·.parents)).getD [], fold p = b := by
  simp only [Extends, ← h.or_eq_some_iff, ← nodeType?_eq]
  cases schema.nodeType? sub <;> simp

variable (hkeyed : schema.Keyed) (hdisjoint : schema.Disjoint)

include hkeyed hdisjoint

theorem arc_iff_extends : Arc (parentArcs (schema.nodeTypes.map (·.2))) a b ↔ schema.Extends a b := by
  unfold Arc Extends
  simp only [arcsFrom_parentArcs hkeyed, Option.map_eq_some_iff, hdisjoint.or_eq_some_iff]
  constructor
  · rintro ⟨_, ⟨d, hd, rfl⟩, hb⟩
    exact ⟨d, hd, List.mem_map.mp hb⟩
  · rintro ⟨d, hd, hb⟩
    exact ⟨_, ⟨d, hd, rfl⟩, List.mem_map.mpr hb⟩

/-- A type is a subtype of itself and of all that lies above it. -/
theorem isSubtype_iff {sub super : String} : schema.isSubtype sub super = true ↔
    Relation.ReflTransGen schema.Extends (fold sub) (fold super) := by
  have harc : Arc (parentArcs (schema.nodeTypes.map (·.2))) = schema.Extends := by
    funext a b
    exact propext (arc_iff_extends hkeyed hdisjoint)
  rw [isSubtype, Bool.or_eq_true, beq_iff_eq, leadsTo_iff, harc, Relation.ReflTransGen.cases_head_iff]
  constructor
  · rintro (heq | ⟨p, hp, hreach⟩)
    · exact Or.inl heq
    · exact Or.inr ⟨fold p, hdisjoint.extends_iff.mpr ⟨p, hp, rfl⟩, hreach⟩
  · rintro (heq | ⟨b, hb, hreach⟩)
    · exact Or.inl heq
    · obtain ⟨p, hp, rfl⟩ := hdisjoint.extends_iff.mp hb
      exact Or.inr ⟨p, hp, hreach⟩

end Schema

end Morphology
