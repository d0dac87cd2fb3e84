-- The manifest of a catalog import: its fields, the validators of the admin
-- API for every field, and the canonical order of an accepted manifest.
import Licensecc.Schema.Catalog
import Mathlib.Data.List.Lex
import Mathlib.Data.List.Sort

open Licensecc.Sql

namespace Licensecc

/-! ## JSON values -/

/-- A parsed JSON value. Its numbers are integers. -/
inductive Value where
  | null
  | bool (b : Bool)
  | number (n : Int)
  | string (s : String)
  | array (l : List Value)
  | object (l : List (String × Value))

namespace Value

/-- The fields of an object that is no array. -/
def fields : Value → Option (List (String × Value))
  | object l => some l
  | _ => none

/-- `input[name]`, where `none` is undefined. -/
def get (l : List (String × Value)) (name : String) : Option Value :=
  (l.find? (·.1 == name)).map (·.2)

def items : Value → Option (List Value)
  | array l => some l
  | _ => none

end Value

/-- `hasOnlyKeys`. -/
def hasOnlyKeys (l : List (String × Value)) (allowed : List String) : Bool :=
  l.all fun field => allowed.contains field.1

/-! ## Texts -/

/-- The UTF-16 units of a character. -/
def utf16 (c : Char) : List Nat :=
  if c.toNat < 0x10000 then [c.toNat]
  else [0xd800 + (c.toNat - 0x10000) / 0x400, 0xdc00 + (c.toNat - 0x10000) % 0x400]

def utf16Text (s : String) : List Nat := s.toList.flatMap utf16

/-- `value.length` of a text. -/
def jsLength (s : String) : Nat := (utf16Text s).length

/-- `value.includes(c)` for one character. -/
def includes (s : String) (c : Char) : Bool := s.toList.contains c

/-- A text with no line break and no NUL. -/
def singleLine (s : String) : Bool :=
  !includes s '\n' && !includes s '\r' && !includes s '\x00'

/-- The condition of `safeString`. -/
def isSafeString (maxLength : Nat) (s : String) : Bool :=
  s != "" && decide (jsLength s ≤ maxLength) && singleLine s && !includes s '='

def safeString (maxLength : Nat) : Option Value → Option String
  | some (.string s) => if isSafeString maxLength s then some s else none
  | _ => none

/-- The condition of `optionalCatalogText`, and of `safeNotes` at its own length. -/
def isText (maxLength : Nat) (s : String) : Bool :=
  decide (jsLength s ≤ maxLength) && singleLine s

def optionalCatalogText (maxLength : Nat) : Option Value → Option String
  | some (.string s) => if isText maxLength s then some s else none
  | _ => none

def maxProjectSize : Nat := 127
def maxFeatureSize : Nat := 15
def maxNotesSize : Nat := 1000
def maxNameSize : Nat := 127
def maxDeviceLimit : Int := 1000000

def safeNotes : Option Value → Option String := optionalCatalogText maxNotesSize

/-- `optionalNotes` with its default. -/
def optionalNotes : Option Value → Option String
  | none => some ""
  | v => safeNotes v

def isCatalogIdentifier (maxLength : Nat) (s : String) : Bool :=
  isSafeString maxLength s && !includes s '\x1f'

def catalogIdentifier (maxLength : Nat) : Option Value → Option String
  | some (.string s) => if isCatalogIdentifier maxLength s then some s else none
  | _ => none

/-- `nullableCatalogIdentifier` of a field that is absent, null, empty or a text.
The source answers null both for no value and for a refused text, so a refused
text counts as no value. -/
def nullableCatalogIdentifier (maxLength : Nat) : Option Value → Option String
  | none => none
  | some .null => none
  | some (.string "") => none
  | v => catalogIdentifier maxLength v

def catalogStatus : Option Value → Option CatalogStatus
  | none => some .active
  | some (.string "active") => some .active
  | some (.string "disabled") => some .disabled
  | _ => none

/-- `boundedInt(value ?? dflt, min, max)`. -/
def boundedIntOr (dflt lo hi : Int) : Option Value → Option Int
  | none => some dflt
  | some .null => some dflt
  | some (.number n) => if lo ≤ n ∧ n ≤ hi then some n else none
  | _ => none

/-- `readNullableNonNegativeInt`, where the outer `none` is a refusal. -/
def readNullableNonNegativeInt (hi : Int) : Option Value → Option (Option Int)
  | none => some none
  | some .null => some none
  | some (.string "") => some none
  | some (.number n) => if 0 ≤ n ∧ n ≤ hi then some (some n) else none
  | _ => none

/-! ## Inputs -/

structure CatalogFeatureInput where
  project : String
  feature_key : String
  name : String
  description : String
  category : String
  status : CatalogStatus
  deriving DecidableEq

structure CatalogPlanInput where
  project : String
  plan_key : String
  name : String
  description : String
  status : CatalogStatus
  version : Int
  deriving DecidableEq

structure CatalogPlanFeatureInput where
  project : String
  feature_key : String
  feature_inclusion : FeatureInclusion
  addon_key : Option String
  policy_id : Option String
  status : CatalogStatus
  display_order : Int
  max_active_devices : Option Int
  deriving DecidableEq

/-- A plan of a manifest with its features. -/
structure ManifestPlan extends CatalogPlanInput where
  features : List CatalogPlanFeatureInput
  deriving DecidableEq

/-- `CatalogImportInput`, whose format version is 1. -/
structure CatalogManifest where
  features : List CatalogFeatureInput
  plans : List ManifestPlan
  deriving DecidableEq

def CatalogFeatureInput.key (f : CatalogFeatureInput) : String × String := (f.project, f.feature_key)

def CatalogPlanInput.key (p : CatalogPlanInput) : String × String := (p.project, p.plan_key)

/-! ## Validators -/

def validateCatalogFeatureInput (value : Value) : Option CatalogFeatureInput := do
  let input ← value.fields
  guard (hasOnlyKeys input ["project", "feature_key", "name", "description", "category", "status"])
  let project ← catalogIdentifier maxProjectSize (Value.get input "project")
  let feature_key ← catalogIdentifier maxFeatureSize (Value.get input "feature_key")
  let name ← safeString maxNameSize (Value.get input "name")
  let description ← optionalNotes (Value.get input "description")
  let category ← match Value.get input "category" with
    | none => some ""
    | v => safeString maxNameSize v
  let status ← catalogStatus (Value.get input "status")
  return { project, feature_key, name, description, category, status }

/-- The new texts of a PATCH. `none` is a field that the PATCH leaves. -/
structure CatalogTextPatch where
  name : Option String := none
  description : Option String := none
  category : Option String := none

/-- One field of a PATCH: absent, or a text that the check accepts. -/
def patched (check : Option Value → Option String) : Option Value → Option (Option String)
  | none => some none
  | v => (check v).map some

def validateCatalogFeaturePatch (value : Value) : Option CatalogTextPatch := do
  let input ← value.fields
  guard (hasOnlyKeys input ["name", "description", "category"])
  let name ← patched (safeString maxNameSize) (Value.get input "name")
  let description ← patched safeNotes (Value.get input "description")
  let category ← patched (optionalCatalogText maxNameSize) (Value.get input "category")
  guard (name.isSome || description.isSome || category.isSome)
  return { name, description, category }

/-- `validateCatalogPlanInput`; the flag is `allowFeatures`. -/
def validateCatalogPlanInput (allowFeatures : Bool) (value : Value) : Option CatalogPlanInput := do
  let input ← value.fields
  guard (hasOnlyKeys input (["project", "plan_key", "name", "description", "status", "version"] ++
    if allowFeatures then ["features"] else []))
  let project ← catalogIdentifier maxProjectSize (Value.get input "project")
  let plan_key ← catalogIdentifier 128 (Value.get input "plan_key")
  let name ← safeString maxNameSize (Value.get input "name")
  let description ← optionalNotes (Value.get input "description")
  let status ← catalogStatus (Value.get input "status")
  let version ← boundedIntOr 1 1 1000000 (Value.get input "version")
  return { project, plan_key, name, description, status, version }

def validateCatalogPlanPatch (value : Value) : Option CatalogTextPatch := do
  let input ← value.fields
  guard (hasOnlyKeys input ["name", "description"])
  let name ← patched (safeString maxNameSize) (Value.get input "name")
  let description ← patched safeNotes (Value.get input "description")
  guard (name.isSome || description.isSome)
  return { name, description }

def featureInclusion : Option Value → Option FeatureInclusion
  | none => some .included
  | some (.string "included") => some .included
  | some (.string "addon") => some .addon
  | _ => none

def validateCatalogPlanFeatureInput (value : Value) : Option CatalogPlanFeatureInput := do
  let input ← value.fields
  guard (hasOnlyKeys input ["project", "feature_key", "feature_inclusion", "addon_key", "policy_id",
    "status", "display_order", "max_active_devices"])
  let project ← catalogIdentifier maxProjectSize (Value.get input "project")
  let feature_key ← catalogIdentifier maxFeatureSize (Value.get input "feature_key")
  let feature_inclusion ← featureInclusion (Value.get input "feature_inclusion")
  let addon_key := nullableCatalogIdentifier 128 (Value.get input "addon_key")
  let policy_id := nullableCatalogIdentifier 128 (Value.get input "policy_id")
  let status ← catalogStatus (Value.get input "status")
  let display_order ← boundedIntOr 0 0 1000000 (Value.get input "display_order")
  let max_active_devices ←
    readNullableNonNegativeInt maxDeviceLimit (Value.get input "max_active_devices")
  guard (feature_inclusion ≠ .addon ∨ addon_key ≠ none)
  return {
    project, feature_key, feature_inclusion, policy_id, status, display_order, max_active_devices
    addon_key := if feature_inclusion = .addon then addon_key else none }

/-- The features of a manifest, none of them twice. -/
def validateFeatures : List Value → List (String × String) → Option (List CatalogFeatureInput)
  | [], _ => some []
  | value :: rest, seen => do
    let parsed ← validateCatalogFeatureInput value
    guard (parsed.key ∉ seen)
    let features ← validateFeatures rest (parsed.key :: seen)
    return parsed :: features

/-- The features of one plan of a manifest, none of them twice. -/
def validatePlanFeatures (project : String) :
    List Value → List String → Option (List CatalogPlanFeatureInput)
  | [], _ => some []
  | value :: rest, seen => do
    let parsed ← validateCatalogPlanFeatureInput value
    guard (parsed.project = project)
    guard (parsed.feature_key ∉ seen)
    let features ← validatePlanFeatures project rest (parsed.feature_key :: seen)
    return parsed :: features

/-- The field `features` of a plan: absent, or a list. -/
def planFeatureValues (value : Value) : Option (List Value) :=
  match value.fields.bind (Value.get · "features") with
  | none => some []
  | some v => v.items

/-- The plans of a manifest, none of them twice. The number counts the plan
features so far. -/
def validatePlans : List Value → List (String × String) → Nat → Option (List ManifestPlan)
  | [], _, _ => some []
  | value :: rest, seen, featureRows => do
    let parsed ← validateCatalogPlanInput true value
    guard (parsed.key ∉ seen)
    let raw ← planFeatureValues value
    guard (featureRows + raw.length ≤ 500)
    let features ← validatePlanFeatures parsed.project raw []
    let plans ← validatePlans rest (parsed.key :: seen) (featureRows + raw.length)
    return { toCatalogPlanInput := parsed, features } :: plans

/-- The field `format_version`: absent, or 1. -/
def formatVersion : Option Value → Bool
  | none => true
  | some (.number n) => n == 1
  | _ => false

def validateCatalogImportInput (value : Value) : Option CatalogManifest := do
  let input ← value.fields
  guard (hasOnlyKeys input ["format_version", "features", "plans"])
  guard (formatVersion (Value.get input "format_version"))
  let rawFeatures ← (Value.get input "features").bind Value.items
  let rawPlans ← (Value.get input "plans").bind Value.items
  guard (rawFeatures.length ≤ 200 ∧ rawPlans.length ≤ 200)
  let features ← validateFeatures rawFeatures []
  let plans ← validatePlans rawPlans [] 0
  return { features, plans }

/-! ## Normal form -/

/-- The order of two texts by their UTF-16 units, as `compareStrings` has it. -/
def textLe (a b : String) : Prop := utf16Text a ≤ utf16Text b

instance : DecidableRel textLe := fun a b => inferInstanceAs (Decidable (utf16Text a ≤ utf16Text b))

/-- The order of two pairs of texts. -/
def pairLe (a b : String × String) : Prop := if a.1 = b.1 then textLe a.2 b.2 else textLe a.1 b.1

instance : DecidableRel pairLe := fun a b => by
  unfold pairLe
  infer_instance

/-- `normalizeCatalogImportManifest` of an accepted manifest: its lists in the order of
their keys. -/
def normalizeCatalogImportManifest (m : CatalogManifest) : CatalogManifest where
  features := m.features.insertionSort fun a b => pairLe a.key b.key
  plans := (m.plans.map fun p => { p with
      features := p.features.insertionSort fun a b => textLe a.feature_key b.feature_key })
    |>.insertionSort fun a b => pairLe a.key b.key

theorem mem_normalized_features {m : CatalogManifest} {f : CatalogFeatureInput} :
    f ∈ (normalizeCatalogImportManifest m).features ↔ f ∈ m.features :=
  (List.perm_insertionSort _ _).mem_iff

/-! ## The keys of an accepted manifest -/

/-- No two rows of a manifest have one key, and the features of a plan are of its
project. -/
structure CatalogManifest.Keyed (m : CatalogManifest) : Prop where
  features : (m.features.map (·.key)).Nodup
  plans : (m.plans.map (·.toCatalogPlanInput.key)).Nodup
  plan_features : ∀ p ∈ m.plans, (p.features.map (·.feature_key)).Nodup
  projects : ∀ p ∈ m.plans, ∀ f ∈ p.features, f.project = p.project

theorem guard_eq_some {c : Prop} [Decidable c] {u : Unit} : (guard c : Option Unit) = some u ↔ c := by
  by_cases h : c <;> simp [guard, h]

theorem validateFeatures_keys {values : List Value} {seen : List (String × String)}
    {features : List CatalogFeatureInput} (h : validateFeatures values seen = some features) :
    (features.map (·.key)).Nodup ∧ ∀ f ∈ features, f.key ∉ seen := by
  induction values generalizing seen features with
  | nil =>
    obtain rfl := Option.some.inj h
    simp
  | cons value rest ih =>
    simp only [validateFeatures, Option.bind_eq_bind, Option.bind_eq_some_iff, guard_eq_some] at h
    obtain ⟨parsed, -, -, hseen, fs, hfs, heq⟩ := h
    obtain rfl := Option.some.inj heq
    obtain ⟨hd, hnew⟩ := ih hfs
    refine ⟨?_, ?_⟩
    · rw [List.map_cons, List.nodup_cons]
      refine ⟨fun hmem => ?_, hd⟩
      obtain ⟨f, hf, hk⟩ := List.mem_map.mp hmem
      exact hnew f hf (hk ▸ List.mem_cons_self)
    · intro f hf
      rcases List.mem_cons.mp hf with rfl | hf
      · exact hseen
      · exact fun hmem => hnew f hf (List.mem_cons_of_mem _ hmem)

theorem validatePlanFeatures_keys {project : String} {values : List Value} {seen : List String}
    {features : List CatalogPlanFeatureInput}
    (h : validatePlanFeatures project values seen = some features) :
    (features.map (·.feature_key)).Nodup ∧
      ∀ f ∈ features, f.feature_key ∉ seen ∧ f.project = project := by
  induction values generalizing seen features with
  | nil =>
    obtain rfl := Option.some.inj h
    simp
  | cons value rest ih =>
    simp only [validatePlanFeatures, Option.bind_eq_bind, Option.bind_eq_some_iff,
      guard_eq_some] at h
    obtain ⟨parsed, -, -, hproject, -, hseen, fs, hfs, heq⟩ := h
    obtain rfl := Option.some.inj heq
    obtain ⟨hd, hnew⟩ := ih hfs
    refine ⟨?_, ?_⟩
    · rw [List.map_cons, List.nodup_cons]
      refine ⟨fun hmem => ?_, hd⟩
      obtain ⟨f, hf, hk⟩ := List.mem_map.mp hmem
      exact (hnew f hf).1 (hk ▸ List.mem_cons_self)
    · intro f hf
      rcases List.mem_cons.mp hf with rfl | hf
      · exact ⟨hseen, hproject⟩
      · exact ⟨fun hmem => (hnew f hf).1 (List.mem_cons_of_mem _ hmem), (hnew f hf).2⟩

theorem validatePlans_keys {values : List Value} {seen : List (String × String)} {count : Nat}
    {plans : List ManifestPlan} (h : validatePlans values seen count = some plans) :
    (plans.map (·.toCatalogPlanInput.key)).Nodup ∧
      ∀ p ∈ plans, p.toCatalogPlanInput.key ∉ seen ∧ (p.features.map (·.feature_key)).Nodup ∧
        ∀ f ∈ p.features, f.project = p.project := by
  induction values generalizing seen count plans with
  | nil =>
    obtain rfl := Option.some.inj h
    simp
  | cons value rest ih =>
    simp only [validatePlans, Option.bind_eq_bind, Option.bind_eq_some_iff, guard_eq_some] at h
    obtain ⟨parsed, -, -, hseen, raw, -, -, -, fs, hfs, ps, hps, heq⟩ := h
    obtain rfl := Option.some.inj heq
    obtain ⟨hd, hnew⟩ := ih hps
    obtain ⟨hdf, hproject⟩ := validatePlanFeatures_keys hfs
    refine ⟨?_, ?_⟩
    · rw [List.map_cons, List.nodup_cons]
      refine ⟨fun hmem => ?_, hd⟩
      obtain ⟨p, hp, hk⟩ := List.mem_map.mp hmem
      exact (hnew p hp).1 (hk ▸ List.mem_cons_self)
    · intro p hp
      rcases List.mem_cons.mp hp with rfl | hp
      · exact ⟨hseen, hdf, fun f hf => (hproject f hf).2⟩
      · exact ⟨fun hmem => (hnew p hp).1 (List.mem_cons_of_mem _ hmem), (hnew p hp).2⟩

/-- An accepted manifest has its keys once. -/
theorem keyed_of_validated {value : Value} {m : CatalogManifest}
    (h : validateCatalogImportInput value = some m) : m.Keyed := by
  simp only [validateCatalogImportInput, Option.bind_eq_bind, Option.bind_eq_some_iff,
    guard_eq_some] at h
  obtain ⟨input, -, -, -, -, -, raw, -, rawPlans, -, -, -, features, hf, plans, hp, heq⟩ := h
  obtain rfl := Option.some.inj heq
  obtain ⟨hd, hplans⟩ := validatePlans_keys hp
  exact ⟨(validateFeatures_keys hf).1, hd, fun p hp => (hplans p hp).2.1,
    fun p hp => (hplans p hp).2.2⟩

/-- The plans of a normal form are those of the manifest with their features in
order. -/
theorem mem_normalized_plans {m : CatalogManifest} {p : ManifestPlan} :
    p ∈ (normalizeCatalogImportManifest m).plans ↔ ∃ q ∈ m.plans,
      p = { q with features :=
        q.features.insertionSort fun a b => textLe a.feature_key b.feature_key } := by
  unfold normalizeCatalogImportManifest
  rw [(List.perm_insertionSort _ _).mem_iff, List.mem_map]
  simp only [eq_comm]

/-- The normal form has the keys of the manifest. -/
theorem CatalogManifest.Keyed.normalized {m : CatalogManifest} (h : m.Keyed) :
    (normalizeCatalogImportManifest m).Keyed where
  features := ((List.perm_insertionSort _ _).map _).nodup_iff.mpr h.features
  plans := by
    refine ((List.perm_insertionSort _ _).map _).nodup_iff.mpr ?_
    rw [List.map_map]
    exact h.plans
  plan_features p hp := by
    obtain ⟨q, hq, rfl⟩ := mem_normalized_plans.mp hp
    exact ((List.perm_insertionSort _ _).map _).nodup_iff.mpr (h.plan_features q hq)
  projects p hp f hf := by
    obtain ⟨q, hq, rfl⟩ := mem_normalized_plans.mp hp
    exact h.projects q hq f ((List.perm_insertionSort _ _).mem_iff.mp hf)

end Licensecc
