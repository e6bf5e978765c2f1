import Morphology.Proofs.Schema.Invariant

/-! Which configurations make a tier. In whatever order it stands, a configuration is accepted exactly when its names are
apart, what it mentions is in it, no type is its own ancestor, and the allowed values of each attribute type are values
of a data type. -/

namespace Morphology

open Text

/-! ## Attribute types in words -/

/-- What a data type may be called. -/
def DataType.names : DataType → List String
  | string => ["string"]
  | number => ["number", "int", "integer"]
  | boolean => ["boolean", "bool"]
  | float => ["float", "double"]

theorem DataType.ofName_eq_ok_iff {text : String} {type : DataType} :
    ofName text = .ok type ↔ lowercaseAscii (trim text) ∈ type.names := by
  unfold ofName
  generalize lowercaseAscii (trim text) = key
  by_cases hstring : key = "string"
  · subst hstring
    cases type <;> decide
  by_cases hnumber : key = "number" ∨ key = "int" ∨ key = "integer"
  · rcases hnumber with rfl | rfl | rfl <;> cases type <;> decide
  by_cases hboolean : key = "boolean" ∨ key = "bool"
  · rcases hboolean with rfl | rfl <;> cases type <;> decide
  by_cases hfloat : key = "float" ∨ key = "double"
  · rcases hfloat with rfl | rfl <;> cases type <;> decide
  simp only [hstring, hnumber, hboolean, hfloat, if_false, reduceCtorEq, false_iff]
  cases type <;> simp_all [names]

/-- The definition is the one that was configured, with its data type by one of its names. -/
structure AttributePlan.Describes (p : AttributePlan) (d : AttributeType) : Prop where
  name : d.name = p.name
  description : d.description = p.description
  dataType : lowercaseAscii (trim p.dataType) ∈ d.dataType.names
  unit : d.unit = p.unit
  allowedValues : d.allowedValues = p.allowedValues

theorem AttributePlan.Describes.unique {p : AttributePlan} {d e : AttributeType} (hd : p.Describes d)
    (he : p.Describes e) : d = e := by
  have htypes := (DataType.ofName_eq_ok_iff.mpr hd.dataType).symm.trans (DataType.ofName_eq_ok_iff.mpr he.dataType)
  obtain ⟨_, _, _, _, _⟩ := d
  obtain ⟨_, _, _, _, _⟩ := e
  obtain ⟨rfl, rfl, -, rfl, rfl⟩ := hd
  obtain ⟨rfl, rfl, -, rfl, rfl⟩ := he
  cases htypes
  rfl

theorem AttributeType.check_eq_ok_iff {d : AttributeType} :
    d.check = .ok () ↔ ∀ v ∈ d.allowedValues, (d.dataType.coerce v).isSome = true := by
  refine ⟨Schema.coherent_of_check, fun h => ?_⟩
  have hnone : d.allowedValues.find? (fun v => (d.dataType.coerce v).isNone) = none := by
    rw [List.find?_eq_none]
    intro v hv
    simp [Option.isSome_iff_ne_none.mp (h v hv)]
  rw [check, hnone]

theorem AttributePlan.resolve_eq_ok_iff {p : AttributePlan} {d : AttributeType} :
    p.resolve = .ok d ↔ p.Describes d ∧ ∀ v ∈ p.allowedValues, (d.dataType.coerce v).isSome = true := by
  constructor
  · intro h
    unfold resolve at h
    split at h
    · cases h
    · rename_i type hname
      simp only at h
      split at h
      · cases h
      · rename_i hcheck
        cases h
        exact ⟨⟨rfl, rfl, DataType.ofName_eq_ok_iff.mp hname, rfl, rfl⟩, AttributeType.check_eq_ok_iff.mp hcheck⟩
  · rintro ⟨hd, hvalues⟩
    obtain ⟨name, description, type, unit, allowedValues⟩ := d
    obtain ⟨rfl, rfl, htype, rfl, rfl⟩ := hd
    have hcheck : AttributeType.check ⟨p.name, p.description, type, p.unit, p.allowedValues⟩ = .ok () :=
      AttributeType.check_eq_ok_iff.mpr hvalues
    simp only [resolve, DataType.ofName_eq_ok_iff.mpr htype, hcheck]

/-! ## Configurations -/

namespace SchemaPlan

variable {plan : SchemaPlan} {tier : SchemaTier} {name key : String} {d : Definition}

def HasNodeType (plan : SchemaPlan) (name : String) : Prop := ∃ d ∈ plan.nodeTypes, fold d.name = fold name

/-- A configured type of the one folded name lists the other as a parent. -/
def Extends (plan : SchemaPlan) (a b : String) : Prop :=
  ∃ d ∈ plan.nodeTypes, fold d.name = a ∧ ∃ p ∈ d.parents, fold p = b

/-- Names are apart, what is mentioned is there, no type is its own ancestor, and every attribute type has a data type
that its allowed values are values of. -/
structure WellFormed (plan : SchemaPlan) : Prop where
  nodeNames : (plan.nodeTypes.map fun d => fold d.name).Nodup
  relationNames : (plan.relationTypes.map fun d => fold d.name).Nodup
  attributeNames : (plan.attributeTypes.map fun p => fold p.name).Nodup
  parents : ∀ d ∈ plan.nodeTypes, ∀ p ∈ d.parents, plan.HasNodeType p
  mentions : ∀ d ∈ plan.relationTypes, ∀ n ∈ d.domain ++ d.range, plan.HasNodeType n
  acyclic : Acyclic plan.Extends
  values : ∀ p ∈ plan.attributeTypes, ∃ type : DataType, lowercaseAscii (trim p.dataType) ∈ type.names ∧
    ∀ v ∈ p.allowedValues, (type.coerce v).isSome = true

section Reading

variable {attributes : List AttributeType}

theorem Reads.names (h : plan.Reads attributes) :
    (attributes.map fun d => fold d.name) = plan.attributeTypes.map fun p => fold p.name := by
  have hnames : ∀ {ps : List AttributePlan} {ds : List AttributeType},
      List.Forall₂ (fun p d => p.resolve = .ok d) ps ds →
        (ds.map fun d => fold d.name) = ps.map fun p => fold p.name := by
    intro ps ds hread
    induction hread with
    | nil => rfl
    | cons hresolve _ ih => rw [List.map_cons, List.map_cons, ih, (AttributePlan.resolve_eq_ok_iff.mp hresolve).1.name]
  exact hnames h

theorem exists_reads_iff : (∃ attributes, plan.Reads attributes) ↔
    ∀ p ∈ plan.attributeTypes, ∃ d, p.resolve = .ok d := by
  have hall : ∀ {ps : List AttributePlan}, (∃ ds, List.Forall₂ (fun p d => AttributePlan.resolve p = .ok d) ps ds) ↔
      ∀ p ∈ ps, ∃ d, p.resolve = .ok d := by
    intro ps
    induction ps with
    | nil => simp
    | cons p ps ih =>
      have hcons : (∃ ds, List.Forall₂ (fun p d => AttributePlan.resolve p = .ok d) (p :: ps) ds) ↔
          ∃ d, p.resolve = .ok d ∧ ∃ ds, List.Forall₂ (fun p d => AttributePlan.resolve p = .ok d) ps ds := by
        simpa using exists_forall₂_cons (P := fun _ => True)
      rw [hcons, List.forall_mem_cons, ih, exists_and_right]
  exact hall

theorem takes_definitions_iff (h : plan.Reads attributes) : SchemaTier.Takes {} (plan.definitions attributes) ↔
    (plan.nodeTypes.map fun d => fold d.name).Nodup ∧ (plan.relationTypes.map fun d => fold d.name).Nodup ∧
      (plan.attributeTypes.map fun p => fold p.name).Nodup := by
  rw [SchemaTier.takes_empty, ← h.names, definitions]
  simp [List.pairwise_append, List.pairwise_map, List.Nodup, Definition.Apart, Definition.kind, Definition.name, or_imp,
    forall_and]

end Reading

/-- The tier has what is configured, each definition under its folded name, and nothing else. -/
def Files (plan : SchemaPlan) (tier : SchemaTier) : Prop :=
  ∀ kind key d, tier.find? kind key = some d ↔ plan.Defines d ∧ d.kind = kind ∧ fold d.name = key

theorem Reads.files {attributes : List AttributeType} (h : plan.Reads attributes)
    (htakes : SchemaTier.Takes {} (plan.definitions attributes)) :
    plan.Files ((plan.definitions attributes).foldl SchemaTier.put {}) := by
  intro kind key d
  have hempty : SchemaTier.find? {} kind key = none := by cases kind <;> rfl
  rw [SchemaTier.find?_foldl_put htakes, hempty, h.mem_definitions]
  simp

namespace Files

variable (h : plan.Files tier)

include h

theorem getNodeType_iff {d : NodeType} :
    tier.nodeTypes.get? key = some d ↔ d ∈ plan.nodeTypes ∧ fold d.name = key := by
  have hfound := h .nodeType key (.nodeType d)
  simpa [SchemaTier.find?, Defines, Definition.kind, Definition.name] using hfound

theorem getRelationType_iff {d : RelationType} :
    tier.relationTypes.get? key = some d ↔ d ∈ plan.relationTypes ∧ fold d.name = key := by
  have hfound := h .relationType key (.relationType d)
  simpa [SchemaTier.find?, Defines, Definition.kind, Definition.name] using hfound

theorem attributeType?_iff {d : AttributeType} :
    tier.attributeType? name = some d ↔ (∃ p ∈ plan.attributeTypes, p.resolve = .ok d) ∧ fold d.name = fold name := by
  have hfound := h .attributeType (fold name) (.attributeType d)
  simpa [SchemaTier.find?, SchemaTier.attributeType?, Defines, Definition.kind, Definition.name] using hfound

theorem isSome_nodeType? : (tier.nodeType? name).isSome = true ↔ plan.HasNodeType name := by
  simp [Option.isSome_iff_exists, SchemaTier.nodeType?, h.getNodeType_iff, HasNodeType]

theorem mem_nodeTypes {d : NodeType} : d ∈ tier.nodeTypes.values ↔ d ∈ plan.nodeTypes := by
  simp [Table.mem_values, h.getNodeType_iff]

theorem mem_relationTypes {d : RelationType} : d ∈ tier.relationTypes.values ↔ d ∈ plan.relationTypes := by
  simp [Table.mem_values, h.getRelationType_iff]

theorem keyed : (⟨tier, {}⟩ : Schema).Keyed :=
  ⟨fun kind key d hd => ((h kind key d).mp hd).2.2, SchemaTier.keyed_empty⟩

theorem extends_eq : (⟨tier, {}⟩ : Schema).Extends = plan.Extends := by
  funext a b
  simp [Schema.Extends, Schema.stores_shared, SchemaTier.find?, Definition.kind, h.getNodeType_iff, Extends, and_assoc]

theorem checkMentions_iff : tier.checkMentions = .ok () ↔
    (∀ d ∈ plan.nodeTypes, ∀ p ∈ d.parents, plan.HasNodeType p) ∧ Acyclic plan.Extends ∧
      ∀ d ∈ plan.relationTypes, ∀ n ∈ d.domain ++ d.range, plan.HasNodeType n := by
  have hknown : ∀ name, (tier.nodeType? name).isNone = false ↔ plan.HasNodeType name := by
    intro name
    rw [← h.isSome_nodeType?]
    cases tier.nodeType? name <;> simp
  have hparents : tier.unknownParent? = none ↔ ∀ d ∈ plan.nodeTypes, ∀ p ∈ d.parents, plan.HasNodeType p := by
    simp only [SchemaTier.unknownParent?, List.findSome?_eq_none_iff, List.find?_eq_none, Bool.not_eq_true, hknown,
      h.mem_nodeTypes]
  have hmentions : tier.unknownMention? = none ↔
      ∀ d ∈ plan.relationTypes, ∀ n ∈ d.domain ++ d.range, plan.HasNodeType n := by
    simp only [SchemaTier.unknownMention?, List.findSome?_eq_none_iff, Option.map_eq_none_iff, List.find?_eq_none,
      Bool.not_eq_true, hknown, h.mem_relationTypes, RelationType.mentioned]
  rw [Schema.checkMentions_eq_ok_iff, hparents, Schema.ownAncestor?_eq_none_iff h.keyed, h.extends_eq,
    hmentions]

end Files

theorem files_of_build (h : plan.build = .ok tier) : plan.Files tier := by
  obtain ⟨attributes, hread, htakes, rfl, -⟩ := build_eq_ok_iff.mp h
  exact hread.files htakes

theorem resolves_iff {p : AttributePlan} : (∃ d, p.resolve = .ok d) ↔
    ∃ type : DataType, lowercaseAscii (trim p.dataType) ∈ type.names ∧
      ∀ v ∈ p.allowedValues, (type.coerce v).isSome = true := by
  simp only [AttributePlan.resolve_eq_ok_iff]
  constructor
  · rintro ⟨d, hd, hvalues⟩
    exact ⟨d.dataType, hd.dataType, hvalues⟩
  · rintro ⟨type, htype, hvalues⟩
    exact ⟨⟨p.name, p.description, type, p.unit, p.allowedValues⟩, ⟨rfl, rfl, htype, rfl, rfl⟩, hvalues⟩

/-- A configuration is accepted exactly when it is well-formed, and then a name stands for the configured definition of
that folded name and for nothing else. -/
theorem builds_iff_wellFormed (plan : SchemaPlan) :
    ((∃ tier, plan.build = .ok tier) ↔ plan.WellFormed) ∧ ∀ tier, plan.build = .ok tier → ∀ name,
      (∀ d, tier.nodeType? name = some d ↔ d ∈ plan.nodeTypes ∧ fold d.name = fold name) ∧
      (∀ d, tier.relationType? name = some d ↔ d ∈ plan.relationTypes ∧ fold d.name = fold name) ∧
      ∀ d, tier.attributeType? name = some d ↔
        ∃ p ∈ plan.attributeTypes, p.Describes d ∧ fold p.name = fold name := by
  refine ⟨⟨?_, ?_⟩, fun tier htier name => ?_⟩
  · rintro ⟨tier, htier⟩
    have hfiles := files_of_build htier
    obtain ⟨attributes, hread, htakes, -, hchecked⟩ := build_eq_ok_iff.mp htier
    obtain ⟨hnodes, hrelations, hattributes⟩ := (takes_definitions_iff hread).mp htakes
    obtain ⟨hparents, hacyclic, hmentions⟩ := hfiles.checkMentions_iff.mp hchecked
    exact {
      nodeNames := hnodes
      relationNames := hrelations
      attributeNames := hattributes
      parents := hparents
      mentions := hmentions
      acyclic := hacyclic
      values := fun p hp => resolves_iff.mp (exists_reads_iff.mp ⟨attributes, hread⟩ p hp) }
  · intro h
    obtain ⟨attributes, hread⟩ := exists_reads_iff.mpr fun p hp => resolves_iff.mpr (h.values p hp)
    have htakes := (takes_definitions_iff hread).mpr ⟨h.nodeNames, h.relationNames, h.attributeNames⟩
    have hchecked := (hread.files htakes).checkMentions_iff.mpr ⟨h.parents, h.acyclic, h.mentions⟩
    exact ⟨_, build_eq_ok_iff.mpr ⟨attributes, hread, htakes, rfl, hchecked⟩⟩
  · have hfiles := files_of_build htier
    refine ⟨fun d => hfiles.getNodeType_iff, fun d => hfiles.getRelationType_iff, fun d => ?_⟩
    obtain ⟨attributes, hread, -⟩ := build_eq_ok_iff.mp htier
    rw [hfiles.attributeType?_iff]
    constructor
    · rintro ⟨⟨p, hp, hresolve⟩, hname⟩
      have hd := (AttributePlan.resolve_eq_ok_iff.mp hresolve).1
      exact ⟨p, hp, hd, by rw [← hd.name, hname]⟩
    · rintro ⟨p, hp, hd, hname⟩
      obtain ⟨e, hresolve⟩ := exists_reads_iff.mp ⟨attributes, hread⟩ p hp
      have he := (AttributePlan.resolve_eq_ok_iff.mp hresolve).1
      rw [hd.unique he]
      exact ⟨⟨p, hp, hresolve⟩, by rw [he.name, hname]⟩

/-- Crows are configured before the birds that they are, in other letters. -/
def flock : SchemaPlan where
  nodeTypes := [{ name := "Crow", parents := ["bird"] }, { name := "Bird" }]
  relationTypes := [{ name := "eats", domain := ["CROW"] }]
  attributeTypes := [{ name := "age", dataType := " Integer ", allowedValues := ["1", "+2"] }]

/-- Every one of three types is its own ancestor. -/
def ringed : SchemaPlan where
  nodeTypes := [{ name := "egg", parents := ["hen"] }, { name := "chick", parents := ["egg"] },
    { name := "hen", parents := ["chick"] }]

theorem wellFormed_flock : flock.WellFormed ∧ ¬ringed.WellFormed ∧ ∃ tier, flock.build = .ok tier ∧
    tier.nodeType? "crow" = some { name := "Crow", parents := ["bird"] } ∧
    tier.attributeType? "AGE" = some { name := "age", dataType := .number, allowedValues := ["1", "+2"] } := by
  obtain ⟨haccepted, hfound⟩ := builds_iff_wellFormed flock
  obtain ⟨tier, htier⟩ : ∃ tier, flock.build = .ok tier := by
    have hok : flock.build.toOption.isSome = true := by decide +kernel
    cases hbuild : flock.build with
    | ok tier => exact ⟨tier, rfl⟩
    | error e => simp [hbuild, Except.toOption] at hok
  have hrefused : ringed.build = .error (.schema (.inheritanceCycle "chick")) := by decide +kernel
  obtain ⟨hcrow, -⟩ := hfound tier htier "crow"
  obtain ⟨-, -, hage⟩ := hfound tier htier "AGE"
  refine ⟨haccepted.mp ⟨tier, htier⟩, fun hringed => ?_, tier, htier, ?_, ?_⟩
  · obtain ⟨tier, htier⟩ := (builds_iff_wellFormed ringed).1.mpr hringed
    rw [hrefused] at htier
    cases htier
  · exact (hcrow _).mpr ⟨List.mem_cons_self, by decide +kernel⟩
  · exact (hage _).mpr ⟨_, List.mem_cons_self, ⟨rfl, rfl, by decide +kernel, rfl, rfl⟩, by decide +kernel⟩

end SchemaPlan

end Morphology
