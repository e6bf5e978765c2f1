import Morphology.Proofs.Outcome
import Morphology.Proofs.Table
import Morphology.Proofs.Text
import Morphology.Schema.Change

/-! The definitions of a schema, whatever they define. Each is filed under its folded name, and an edit of the schema
that is not refused puts one definition into the own tier or takes one out of it; the others are found as before. -/

namespace Morphology

open Text

namespace SchemaTier

def find? (tier : SchemaTier) (kind : TypeKind) (key : String) : Option Definition :=
  match kind with
  | .nodeType => (tier.nodeTypes.get? key).map .nodeType
  | .relationType => (tier.relationTypes.get? key).map .relationType
  | .attributeType => (tier.attributeTypes.get? key).map .attributeType

def put (tier : SchemaTier) : Definition → SchemaTier
  | .nodeType d => { tier with nodeTypes := tier.nodeTypes.insert (fold d.name) d }
  | .relationType d => { tier with relationTypes := tier.relationTypes.insert (fold d.name) d }
  | .attributeType d => { tier with attributeTypes := tier.attributeTypes.insert (fold d.name) d }

def erase (tier : SchemaTier) (kind : TypeKind) (name : String) : SchemaTier :=
  match kind with
  | .nodeType => { tier with nodeTypes := tier.nodeTypes.erase (fold name) }
  | .relationType => { tier with relationTypes := tier.relationTypes.erase (fold name) }
  | .attributeType => { tier with attributeTypes := tier.attributeTypes.erase (fold name) }

/-- What is filed under a key folds to it. -/
def Keyed (tier : SchemaTier) : Prop := ∀ kind key d, tier.find? kind key = some d → fold d.name = key

variable {tier tier' : SchemaTier} {kind : TypeKind} {name key : String} {d : Definition}

theorem contains_eq (tier : SchemaTier) (kind : TypeKind) (name : String) :
    tier.contains kind name = (tier.find? kind (fold name)).isSome := by
  cases kind <;> simp [contains, find?, nodeType?, relationType?, attributeType?]

theorem find?_put : (tier.put d).find? kind key = if kind = d.kind ∧ key = fold d.name then some d
    else tier.find? kind key := by
  cases d <;> cases kind <;> simp [find?, put, Definition.kind, Definition.name, Table.lookup_insert] <;>
    split <;> rfl

theorem find?_erase : (tier.erase kind name).find? kind key = if key = fold name then none
    else tier.find? kind key := by
  cases kind <;> simp only [find?, erase, Table.lookup_erase] <;> split <;> rfl

theorem find?_erase_of_ne {kind' : TypeKind} (h : kind' ≠ kind) :
    (tier.erase kind name).find? kind' key = tier.find? kind' key := by
  cases kind <;> cases kind' <;> first | rfl | exact absurd rfl h

theorem keyed_empty : Keyed {} := by
  intro kind key d hd
  cases kind <;> cases hd

theorem Keyed.put (h : tier.Keyed) (d : Definition) : (tier.put d).Keyed := by
  intro kind key d' hd'
  rw [find?_put] at hd'
  split at hd'
  · rename_i hkey
    cases hd'
    exact hkey.2.symm
  · exact h kind key d' hd'

theorem Keyed.foldl_put (h : tier.Keyed) (ds : List Definition) : (ds.foldl SchemaTier.put tier).Keyed := by
  induction ds generalizing tier with
  | nil => exact h
  | cons d ds ih => exact ih (h.put d)

theorem Keyed.erase (h : tier.Keyed) (kind : TypeKind) (name : String) : (tier.erase kind name).Keyed := by
  intro kind' key d hd
  refine h kind' key d ?_
  by_cases hkind : kind' = kind
  · subst hkind
    rw [find?_erase] at hd
    split at hd
    · cases hd
    · exact hd
  · rwa [find?_erase_of_ne hkind] at hd

end SchemaTier

namespace Schema

/-- The definition that a name stands for, in any spelling of it. -/
def find? (schema : Schema) (kind : TypeKind) (name : String) : Option Definition :=
  (schema.shared.find? kind (fold name)).or (schema.own.find? kind (fold name))

def put (schema : Schema) (d : Definition) : Schema := { schema with own := schema.own.put d }

def erase (schema : Schema) (kind : TypeKind) (name : String) : Schema :=
  { schema with own := schema.own.erase kind name }

structure Keyed (schema : Schema) : Prop where
  shared : schema.shared.Keyed
  own : schema.own.Keyed

variable {schema schema' : Schema} {kind : TypeKind} {name name' : String} {d : Definition}

theorem find?_nodeType (schema : Schema) (name : String) :
    schema.find? .nodeType name = (schema.nodeType? name).map .nodeType := by
  simp only [find?, nodeType?, findNodeType, SchemaTier.find?, SchemaTier.nodeType?]
  cases schema.shared.nodeTypes.get? (fold name) <;> cases schema.own.nodeTypes.get? (fold name) <;> rfl

theorem find?_relationType (schema : Schema) (name : String) :
    schema.find? .relationType name = (schema.relationType? name).map .relationType := by
  simp only [find?, relationType?, findRelationType, SchemaTier.find?, SchemaTier.relationType?]
  cases schema.shared.relationTypes.get? (fold name) <;> cases schema.own.relationTypes.get? (fold name) <;> rfl

theorem find?_attributeType (schema : Schema) (name : String) :
    schema.find? .attributeType name = (schema.attributeType? name).map .attributeType := by
  simp only [find?, attributeType?, findAttributeType, SchemaTier.find?, SchemaTier.attributeType?]
  cases schema.shared.attributeTypes.get? (fold name) <;> cases schema.own.attributeTypes.get? (fold name) <;> rfl

theorem find?_congr (h : fold name = fold name') : schema.find? kind name = schema.find? kind name' := by
  rw [find?, h, ← find?]

theorem Keyed.fold_name (h : schema.Keyed) (hd : schema.find? kind name = some d) : fold d.name = fold name := by
  rcases Option.or_eq_some_iff.mp hd with hd | ⟨-, hd⟩
  · exact h.shared _ _ _ hd
  · exact h.own _ _ _ hd

/-- What is found is found under its own name as well. -/
theorem Keyed.find?_name (h : schema.Keyed) (hd : schema.find? kind name = some d) :
    schema.find? kind d.name = some d := by
  rw [find?_congr (h.fold_name hd), hd]

theorem Keyed.fold_relationType? (h : schema.Keyed) {d : RelationType} (hd : schema.relationType? name = some d) :
    fold d.name = fold name :=
  h.fold_name (d := .relationType d) (by rw [find?_relationType, hd, Option.map_some])

theorem Keyed.fold_attributeType? (h : schema.Keyed) {d : AttributeType} (hd : schema.attributeType? name = some d) :
    fold d.name = fold name :=
  h.fold_name (d := .attributeType d) (by rw [find?_attributeType, hd, Option.map_some])

theorem Keyed.nodeType?_name (h : schema.Keyed) {d : NodeType} (hd : schema.nodeType? name = some d) :
    schema.nodeType? d.name = some d := by
  have hfound : schema.find? .nodeType name = some (.nodeType d) := by rw [find?_nodeType, hd, Option.map_some]
  have hname := h.find?_name hfound
  rw [find?_nodeType] at hname
  exact Option.map_injective (fun _ _ => Definition.nodeType.inj) hname

theorem Keyed.relationType?_name (h : schema.Keyed) {d : RelationType} (hd : schema.relationType? name = some d) :
    schema.relationType? d.name = some d := by
  have hfound : schema.find? .relationType name = some (.relationType d) := by
    rw [find?_relationType, hd, Option.map_some]
  have hname := h.find?_name hfound
  rw [find?_relationType] at hname
  exact Option.map_injective (fun _ _ => Definition.relationType.inj) hname

theorem Keyed.attributeType?_name (h : schema.Keyed) {d : AttributeType} (hd : schema.attributeType? name = some d) :
    schema.attributeType? d.name = some d := by
  have hfound : schema.find? .attributeType name = some (.attributeType d) := by
    rw [find?_attributeType, hd, Option.map_some]
  have hname := h.find?_name hfound
  rw [find?_attributeType] at hname
  exact Option.map_injective (fun _ _ => Definition.attributeType.inj) hname

theorem Keyed.put (h : schema.Keyed) (d : Definition) : (schema.put d).Keyed := ⟨h.shared, h.own.put d⟩

theorem Keyed.erase (h : schema.Keyed) (kind : TypeKind) (name : String) : (schema.erase kind name).Keyed :=
  ⟨h.shared, h.own.erase kind name⟩

theorem shared_of_find?_none (h : schema.find? kind name = none) : schema.shared.contains kind name = false := by
  rw [SchemaTier.contains_eq, (Option.or_eq_none_iff.mp h).1, Option.isSome_none]

theorem find?_put (h : schema.shared.contains d.kind d.name = false) :
    (schema.put d).find? kind name = if kind = d.kind ∧ fold name = fold d.name then some d
      else schema.find? kind name := by
  simp only [find?, put, SchemaTier.find?_put]
  split
  · rename_i hkey
    rw [SchemaTier.contains_eq, Option.isSome_eq_false_iff, Option.isNone_iff_eq_none] at h
    rw [hkey.1, hkey.2, h, Option.none_or]
  · rfl

theorem find?_erase {kind' : TypeKind} (h : ¬(kind' = kind ∧ fold name' = fold name)) :
    (schema.erase kind name).find? kind' name' = schema.find? kind' name' := by
  simp only [find?, erase]
  by_cases hkind : kind' = kind
  · rw [hkind, SchemaTier.find?_erase, if_neg fun hname => h ⟨hkind, hname⟩]
  · rw [SchemaTier.find?_erase_of_ne hkind]

theorem find?_of_erase {kind' : TypeKind} (h : (schema.erase kind name).find? kind' name' = some d) :
    schema.find? kind' name' = some d := by
  by_cases hkey : kind' = kind ∧ fold name' = fold name
  · obtain ⟨rfl, hname⟩ := hkey
    simp only [find?, erase, SchemaTier.find?_erase, if_pos hname, Option.or_none] at h
    rw [find?, h, Option.some_or]
  · rwa [find?_erase hkey] at h

theorem checkNewName_eq_ok (h : schema.checkNewName kind name = .ok name') :
    name' = collapse name ∧ schema.find? kind name' = none := by
  unfold checkNewName at h
  simp only [SchemaTier.contains_eq, Option.isSome_iff_ne_none] at h
  split at h
  · cases h
  · split at h
    · cases h
    · split at h
      · cases h
      · rename_i hshared hown
        cases h
        rw [find?, not_not.mp hshared, not_not.mp hown]
        exact ⟨rfl, rfl⟩

theorem checkEditable_eq_ok {u : Unit} (h : schema.checkEditable kind name = .ok u) :
    schema.shared.contains kind name = false := by
  unfold checkEditable at h
  split at h
  · cases h
  · rename_i hshared
    exact Bool.eq_false_iff.mpr hshared

end Schema

/-- The definition under the name that is stored for it. -/
def Definition.tidied : Definition → Definition
  | nodeType d => nodeType { d with name := collapse d.name }
  | relationType d => relationType { d with name := collapse d.name }
  | attributeType d => attributeType { d with name := collapse d.name }

namespace Schema

variable {schema schema' : Schema} {kind : TypeKind} {name : String} {d d' : Definition}

theorem create_eq_ok (h : schema.create d = .ok schema') :
    schema.find? d.tidied.kind d.tidied.name = none ∧ schema' = schema.put d.tidied := by
  cases d <;> simp only [create, createNodeType, createRelationType, createAttributeType, bind_eq_ok] at h <;>
  · obtain ⟨name, hname, _, -, h⟩ := h
    obtain ⟨rfl, hfree⟩ := checkNewName_eq_ok hname
    cases h
    exact ⟨hfree, rfl⟩

theorem update_eq_ok (h : schema.update d = .ok schema') :
    schema.shared.contains d.tidied.kind d.tidied.name = false ∧ schema' = schema.put d.tidied := by
  cases d with
  | nodeType d =>
    simp only [update, updateNodeType, bind_eq_ok] at h
    obtain ⟨_, heditable, _, -, h⟩ := h
    split at h
    · cases h
    · cases h
      exact ⟨checkEditable_eq_ok heditable, rfl⟩
  | relationType d =>
    simp only [update, updateRelationType, bind_eq_ok] at h
    obtain ⟨_, heditable, _, -, h⟩ := h
    cases h
    exact ⟨checkEditable_eq_ok heditable, rfl⟩
  | attributeType d =>
    simp only [update, updateAttributeType, bind_eq_ok] at h
    obtain ⟨_, heditable, _, -, h⟩ := h
    cases h
    exact ⟨checkEditable_eq_ok heditable, rfl⟩

theorem delete_eq_ok (h : schema.delete kind name = .ok (d, schema')) : schema' = schema.erase kind name := by
  cases kind with
  | nodeType =>
    simp only [delete, map_eq_ok, deleteNodeType, bind_eq_ok] at h
    obtain ⟨p, ⟨_, -, h⟩, hp⟩ := h
    split at h
    · cases h
    · split at h
      · cases h
      · cases h
        cases hp
        rfl
  | relationType =>
    simp only [delete, map_eq_ok, deleteRelationType, bind_eq_ok] at h
    obtain ⟨p, ⟨_, -, h⟩, hp⟩ := h
    split at h
    · cases h
    · cases h
      cases hp
      rfl
  | attributeType =>
    simp only [delete, map_eq_ok, deleteAttributeType, bind_eq_ok] at h
    obtain ⟨p, ⟨_, -, h⟩, hp⟩ := h
    split at h
    · cases h
    · cases h
      cases hp
      rfl

end Schema

end Morphology
