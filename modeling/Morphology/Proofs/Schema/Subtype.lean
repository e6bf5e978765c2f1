import Morphology.Proofs.Schema.Invariant
import Morphology.Proofs.Search.Traversal

/-! Subtypes as chains of parents. In every schema, whatever parents its types name, a type is a subtype of itself and
of what a chain of parents leads to, each of them looked up by its folded name. Where a schema was configured and then
edited this orders the types. -/

namespace Morphology

open Text

namespace Schema

variable {schema : Schema} {name parent sub super key : String}

def parentsOf (schema : Schema) (name : String) : List String := ((schema.nodeType? name).map (·.parents)).getD []

/-- The definition that the name stands for lists the parent. -/
def HasParent (schema : Schema) (name parent : String) : Prop :=
  ∃ d, schema.nodeType? name = some d ∧ parent ∈ d.parents

/-- The names fold alike, or a chain of parents leads from the one to a spelling of the other. -/
def Inherits (schema : Schema) (sub super : String) : Prop :=
  fold sub = fold super ∨ ∃ p, Relation.TransGen schema.HasParent sub p ∧ fold p = fold super

theorem mem_parentsOf : parent ∈ schema.parentsOf name ↔ schema.HasParent name parent := by
  unfold parentsOf HasParent
  cases schema.nodeType? name <;> simp

/-! ## Any schema -/

/-- The parents of the type under a folded name, folded; the shared tier is asked first. -/
def keysAbove (schema : Schema) (key : String) : List String :=
  (((schema.shared.nodeTypes.get? key).or (schema.own.nodeTypes.get? key)).map fun d => d.parents.map fold).getD []

theorem keysAbove_fold (schema : Schema) (name : String) :
    schema.keysAbove (fold name) = (schema.parentsOf name).map fold := by
  rw [keysAbove, ← nodeType?_eq, parentsOf]
  cases schema.nodeType? name <;> rfl

section Filed

variable (h : schema.Keyed)

include h

theorem arcsFrom_fold (name : String) : arcsFrom (fold name) (parentArcs (schema.nodeTypes.map (·.2))) =
    (schema.nodeType? name).map fun d => d.parents.map fold := by
  rw [arcsFrom_parentArcs h, nodeType?_eq]

theorem targetsOf_parentArcs : targetsOf (parentArcs (schema.nodeTypes.map (·.2))) = schema.keysAbove := by
  funext key
  rw [targetsOf, arcsFrom_parentArcs h, keysAbove]

theorem arc_fold_iff : Arc (parentArcs (schema.nodeTypes.map (·.2))) (fold name) key ↔
    ∃ p, schema.HasParent name p ∧ fold p = key := by
  unfold Arc HasParent
  rw [arcsFrom_fold h]
  cases schema.nodeType? name <;> simp

/-- Paths over folded names are chains of parents: every name on the way may be spelled as the list has it. -/
theorem reaches_fold_iff : Relation.ReflTransGen (Arc (parentArcs (schema.nodeTypes.map (·.2)))) (fold name) key ↔
    ∃ p, Relation.ReflTransGen schema.HasParent name p ∧ fold p = key := by
  constructor
  · intro hreach
    induction hreach with
    | refl => exact ⟨name, .refl, rfl⟩
    | tail _ harc ih =>
      obtain ⟨p, hp, rfl⟩ := ih
      obtain ⟨q, hq, rfl⟩ := (arc_fold_iff h).mp harc
      exact ⟨q, hp.tail hq, rfl⟩
  · rintro ⟨p, hp, rfl⟩
    exact hp.lift fold fun a b hab => (arc_fold_iff h).mpr ⟨b, hab, rfl⟩

theorem isSubtype_iff_inherits : schema.isSubtype sub super = true ↔ schema.Inherits sub super := by
  have hchain : leadsTo (schema.nodeTypes.map (·.2)) super (schema.parentsOf sub) = true ↔
      ∃ p, Relation.TransGen schema.HasParent sub p ∧ fold p = fold super := by
    simp only [leadsTo_iff, mem_parentsOf, reaches_fold_iff h, Relation.TransGen.head'_iff]
    constructor
    · rintro ⟨n, hn, p, hp, hfold⟩
      exact ⟨p, ⟨n, hn, hp⟩, hfold⟩
    · rintro ⟨p, ⟨n, hn, hp⟩, hfold⟩
      exact ⟨n, hn, p, hp, hfold⟩
  have hdef : schema.isSubtype sub super =
      (fold sub == fold super || leadsTo (schema.nodeTypes.map (·.2)) super (schema.parentsOf sub)) := rfl
  rw [hdef, Bool.or_eq_true, beq_iff_eq, hchain, Inherits]

theorem satisfies_iff {allowed : List String} : schema.satisfies name allowed = true ↔
    allowed = [] ∨ ∃ a ∈ allowed, schema.Inherits name a := by
  simp [satisfies, isSubtype_iff_inherits h]

/-- The search through the parents of a type ends, with cycles among the types or without. -/
theorem traverses_isSubtype (sub super : String) :
    ∃ n ≤ arcWeight (parentArcs (schema.nodeTypes.map (·.2))) + (schema.parentsOf sub).length, ∃ found,
      Traverses (· == fold super) schema.keysAbove [] (schema.keysAbove (fold sub)) n found ∧
        schema.isSubtype sub super = (fold sub == fold super || found.isSome) := by
  obtain ⟨n, hn, hrun⟩ := traverses_search (· == fold super) (parentArcs (schema.nodeTypes.map (·.2)))
    ((schema.parentsOf sub).map fold)
  rw [List.length_map] at hn
  rw [targetsOf_parentArcs h] at hrun
  refine ⟨n, hn, _, ?_, rfl⟩
  rwa [keysAbove_fold]

end Filed

/-! ## Schemas that edits lead to -/

/-- The node types that are there, by their folded names. -/
def TypeKey (schema : Schema) : Type := {key : String // ∃ name, (schema.nodeType? name).isSome = true ∧ fold name = key}

/-- One type is a subtype of the other. -/
def TypeKey.Below (a b : schema.TypeKey) : Prop :=
  ∃ sub super, fold sub = a.1 ∧ fold super = b.1 ∧ schema.isSubtype sub super = true

namespace WellFormed

variable (h : schema.WellFormed)

include h

theorem below_iff {a b : schema.TypeKey} : a.Below b ↔ Relation.ReflTransGen schema.Extends a.1 b.1 := by
  unfold TypeKey.Below
  simp only [isSubtype_iff h.keyed h.disjoint]
  constructor
  · rintro ⟨sub, super, hsub, hsuper, hreach⟩
    rwa [hsub, hsuper] at hreach
  · intro hreach
    obtain ⟨sub, -, hsub⟩ := a.2
    obtain ⟨super, -, hsuper⟩ := b.2
    exact ⟨sub, super, hsub, hsuper, by rwa [hsub, hsuper]⟩

/-- No type is its own ancestor, so two types are not each below the other. -/
theorem isPartialOrder_below : IsPartialOrder schema.TypeKey TypeKey.Below where
  refl a := h.below_iff.mpr .refl
  trans a b c hab hbc := h.below_iff.mpr ((h.below_iff.mp hab).trans (h.below_iff.mp hbc))
  antisymm a b hab hba := by
    have hab := h.below_iff.mp hab
    have hba := h.below_iff.mp hba
    rcases Relation.reflTransGen_iff_eq_or_transGen.mp hab with heq | hchain
    · exact Subtype.ext heq.symm
    · exact absurd (hchain.trans_left hba) (h.acyclic a.1)

end WellFormed

/-- A type is a subtype of just those that its parents and theirs lead to, and a list of types accepts just what lies
below one of them. The search for that ends in every schema; in one that was configured and edited types are ordered. -/
theorem subtypes_inherit (h : schema.Keyed) :
    (∀ sub super,
      (∃ n ≤ arcWeight (parentArcs (schema.nodeTypes.map (·.2))) + (schema.parentsOf sub).length, ∃ found,
        Traverses (· == fold super) schema.keysAbove [] (schema.keysAbove (fold sub)) n found ∧
          schema.isSubtype sub super = (fold sub == fold super || found.isSome)) ∧
      (schema.isSubtype sub super = true ↔ schema.Inherits sub super)) ∧
    (∀ name allowed, schema.satisfies name allowed = true ↔ allowed = [] ∨ ∃ a ∈ allowed, schema.Inherits name a) ∧
    ∀ (plan : SchemaPlan) (tier : SchemaTier) (cs : List SchemaChange), plan.build = .ok tier →
      (cs.foldl Schema.after ⟨tier, {}⟩).Keyed ∧
        IsPartialOrder (cs.foldl Schema.after ⟨tier, {}⟩).TypeKey TypeKey.Below := by
  refine ⟨fun sub super => ⟨traverses_isSubtype h sub super, isSubtype_iff_inherits h⟩,
    fun name allowed => satisfies_iff h, fun plan tier cs hbuild => ?_⟩
  have hwell := (wellFormed_of_build hbuild).foldl_after cs
  exact ⟨hwell.keyed, hwell.isPartialOrder_below⟩

/-- Birds and animals lie above each other, ghosts are no type, and the second definition of birds is hidden. -/
def tangled : Schema where
  shared := ([.nodeType { name := "bird", parents := ["Animal", "ghost"] },
    .nodeType { name := "animal", parents := [" BIRD "] }] : List Definition).foldl SchemaTier.put {}
  own := ([.nodeType { name := "Crow", parents := ["bird"] }, .nodeType { name := "Bird", parents := ["crow"] }] :
    List Definition).foldl SchemaTier.put {}

theorem inherits_tangled : tangled.Keyed ∧ tangled.Inherits "crow" "ANIMAL" ∧ tangled.Inherits "animal" "Ghost" ∧
    ¬tangled.Inherits "bird" "crow" ∧ (∃ a ∈ ["plant", "animal"], tangled.Inherits "crow" a) ∧
    IsPartialOrder (crows.foldl Schema.after ⟨birdTypes, {}⟩).TypeKey TypeKey.Below := by
  have hkeyed : tangled.Keyed := ⟨SchemaTier.keyed_empty.foldl_put _, SchemaTier.keyed_empty.foldl_put _⟩
  obtain ⟨hsub, hsatisfies, horder⟩ := subtypes_inherit hkeyed
  have hnot : tangled.isSubtype "bird" "crow" = false := by decide +kernel
  have hallowed := (hsatisfies "crow" ["plant", "animal"]).mp (by decide +kernel)
  refine ⟨hkeyed, (hsub _ _).2.mp (by decide +kernel), (hsub _ _).2.mp (by decide +kernel), fun hbelow => ?_,
    hallowed.resolve_left (by simp), (horder birds birdTypes crows (by decide +kernel)).2⟩
  rw [(hsub _ _).2.mpr hbelow] at hnot
  cases hnot

end Schema

end Morphology
