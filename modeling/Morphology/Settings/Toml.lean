import Morphology.Settings
import Morphology.Toml.Parse

/-! Settings read from TOML. Fields that are not known are ignored, fields that are missing have their default,
and a field of the wrong type makes the whole unreadable. -/

namespace Morphology

namespace Toml

def string? : Toml → Option String
  | string s => some s
  | _ => none

def boolean? : Toml → Option Bool
  | boolean b => some b
  | _ => none

def natural? : Toml → Option Nat
  | integer n => if 0 ≤ n then some n.toNat else none
  | _ => none

def items? : Toml → Option (List Toml)
  | list items => some items
  | tables items => some items
  | _ => none

def listOf? {α : Type} (read : Toml → Option α) (v : Toml) : Option (List α) := v.items? >>= (·.mapM read)

def strings? : Toml → Option (List String) := listOf? string?

/-- The fields of a record. A list gives them in the order of `names`, and a date has none that count. -/
def record? (names : List String) : Toml → Option Fields
  | table _ fields => some fields
  | date _ => some []
  | v => (names.zip ·) <$> v.items?

def field? {α : Type} (fields : Fields) (key : String) (read : Toml → Option α) (default : α) : Option α :=
  match find? key fields with
  | none => some default
  | some v => read v

end Toml

open Toml

/-- A name, or the name as the only field of a table, with nothing in it. -/
def DeletePolicy.ofToml? (v : Toml) : Option DeletePolicy :=
  let name? : Option String :=
    match v with
    | .string s => some s
    | .table _ [(s, .table _ [])] => some s
    | .table _ [(s, .list [])] => some s
    | _ => none
  match name? with
  | some "reject" => some .reject
  | some "cascade" => some .cascade
  | _ => none

def Weights.ofToml? (v : Toml) : Option Weights := do
  let fields ← v.record? ["node", "relation", "attribute", "qualified", "quantified", "modality", "unit",
    "adverb", "advanced", "reused", "transition"]
  let base : Weights := {}
  return {
    node := ← field? fields "node" natural? base.node
    relation := ← field? fields "relation" natural? base.relation
    attr := ← field? fields "attribute" natural? base.attr
    qualified := ← field? fields "qualified" natural? base.qualified
    quantified := ← field? fields "quantified" natural? base.quantified
    modality := ← field? fields "modality" natural? base.modality
    unit := ← field? fields "unit" natural? base.unit
    adverb := ← field? fields "adverb" natural? base.adverb
    advanced := ← field? fields "advanced" natural? base.advanced
    reused := ← field? fields "reused" natural? base.reused
    transition := ← field? fields "transition" natural? base.transition }

def NodeType.ofToml? (v : Toml) : Option NodeType := do
  let fields ← v.record? ["name", "description", "parents"]
  return {
    name := ← field? fields "name" string? ""
    description := ← field? fields "description" string? ""
    parents := ← field? fields "parents" strings? [] }

def RelationType.ofToml? (v : Toml) : Option RelationType := do
  let fields ← v.record? ["name", "description", "domain", "range", "symmetric", "transitive", "inverse"]
  return {
    name := ← field? fields "name" string? ""
    description := ← field? fields "description" string? ""
    domain := ← field? fields "domain" strings? []
    range := ← field? fields "range" strings? []
    symmetric := ← field? fields "symmetric" boolean? false
    transitive := ← field? fields "transitive" boolean? false
    inverse := ← field? fields "inverse" (some <$> string? ·) none }

def AttributePlan.ofToml? (v : Toml) : Option AttributePlan := do
  let fields ← v.record? ["name", "description", "data_type", "unit", "allowed_values"]
  return {
    name := ← field? fields "name" string? ""
    description := ← field? fields "description" string? ""
    dataType := ← field? fields "data_type" string? "string"
    unit := ← field? fields "unit" (some <$> string? ·) none
    allowedValues := ← field? fields "allowed_values" strings? [] }

def SchemaPlan.ofToml? (v : Toml) : Option SchemaPlan := do
  let fields ← v.record? ["node_types", "relation_types", "attribute_types"]
  return {
    nodeTypes := ← field? fields "node_types" (listOf? NodeType.ofToml?) []
    relationTypes := ← field? fields "relation_types" (listOf? RelationType.ofToml?) []
    attributeTypes := ← field? fields "attribute_types" (listOf? AttributePlan.ofToml?) [] }

namespace Settings

def ofFields? (fields : Fields) : Option Settings :=
  let base : Settings := {}
  return {
    user := ← field? fields "user" string? base.user
    graph := ← field? fields "graph" string? base.graph
    deletePolicy := ← field? fields "schema_delete" DeletePolicy.ofToml? base.deletePolicy
    guardVersions := ← field? fields "optimistic_versioning" boolean? base.guardVersions
    rejectCycles := ← field? fields "reject_transition_cycles" boolean? base.rejectCycles
    weights := ← field? fields "weights" Weights.ofToml? base.weights
    logLevel := ← field? fields "log_level" (some <$> string? ·) base.logLevel
    schema := ← field? fields "schema" SchemaPlan.ofToml? base.schema }

/-- The settings that a text in TOML holds, if it is one and they are of the right types. -/
def ofText? (text : String) : Option Settings := Toml.parse? text >>= ofFields?

end Settings

end Morphology
