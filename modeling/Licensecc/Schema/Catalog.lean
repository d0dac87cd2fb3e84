-- The tables of the catalog: features, plans, the features of each plan, and
-- the policies that stamp a grant. No statement of the source deletes a row
-- of these tables.
import Licensecc.Sql.Table
import Mathlib.Algebra.Order.Group.Int

open Licensecc.Sql

namespace Licensecc

/-- Most keys of the catalog are pairs of texts. -/
instance lawfulBEq_key : LawfulBEq (String × String) := inferInstance

inductive CatalogStatus where
  | active
  | disabled
  deriving DecidableEq

structure CatalogFeature where
  id : String
  project : String
  feature_key : String
  name : String
  description : String := ""
  category : String := ""
  status : CatalogStatus := .active
  created_at : Int
  updated_at : Int
  deriving DecidableEq

instance : Schema CatalogFeature where
  check _ := True
  clash a b := a.id = b.id ∨ (a.project = b.project ∧ a.feature_key = b.feature_key)
  clash_symm := Or.imp Eq.symm fun h => ⟨h.1.symm, h.2.symm⟩
  decCheck := fun _ => inferInstance
  decClash := fun _ _ => inferInstance

structure CatalogPlan where
  id : String
  project : String
  plan_key : String
  name : String
  status : CatalogStatus := .active
  version : Int := 1
  description : String := ""
  created_at : Int
  updated_at : Int
  deriving DecidableEq

instance : Schema CatalogPlan where
  check _ := True
  clash a b := a.id = b.id ∨ (a.project = b.project ∧ a.plan_key = b.plan_key)
  clash_symm := Or.imp Eq.symm fun h => ⟨h.1.symm, h.2.symm⟩
  decCheck := fun _ => inferInstance
  decClash := fun _ _ => inferInstance

inductive FeatureInclusion where
  | included
  | addon
  deriving DecidableEq

structure CatalogPlanFeature where
  project : String
  plan_id : String
  feature_key : String
  feature_inclusion : FeatureInclusion := .included
  addon_key : Option String := none
  policy_id : Option String := none
  status : CatalogStatus := .active
  display_order : Int := 0
  max_active_devices : Option Int := none
  created_at : Int
  updated_at : Int
  deriving DecidableEq

/-- The primary key of a plan feature. -/
def CatalogPlanFeature.sameRow (a b : CatalogPlanFeature) : Prop :=
  a.plan_id = b.plan_id ∧ a.feature_key = b.feature_key

/-- `idx_catalog_plan_features_addon`: one plan has an add-on key once. -/
def CatalogPlanFeature.sameAddon (a b : CatalogPlanFeature) : Prop :=
  a.plan_id = b.plan_id ∧ Same a.addon_key b.addon_key

instance : DecidableRel CatalogPlanFeature.sameRow := fun _ _ => inferInstanceAs (Decidable (_ ∧ _))

instance : DecidableRel CatalogPlanFeature.sameAddon :=
  fun _ _ => inferInstanceAs (Decidable (_ ∧ _))

instance : Schema CatalogPlanFeature where
  check _ := True
  clash a b := a.sameRow b ∨ a.sameAddon b
  clash_symm := by
    rintro a b (⟨hp, hf⟩ | ⟨hp, v, ha, hb⟩)
    · exact .inl ⟨hp.symm, hf.symm⟩
    · exact .inr ⟨hp.symm, v, hb, ha⟩
  decCheck := fun _ => inferInstance
  decClash := fun a b => inferInstanceAs (Decidable (a.sameRow b ∨ a.sameAddon b))

/-! ## Policies -/

inductive PolicyType where
  | trial
  | node_locked
  | subscription
  deriving DecidableEq

inductive ExpiryStrategy where
  | fixed_window
  | non_expiring
  deriving DecidableEq

structure Policy where
  id : String
  project : String
  name : String
  type : PolicyType
  status : CatalogStatus := .active
  valid_from_offset_sec : Option Int := none
  duration_sec : Option Int := none
  max_active_devices : Int := 1
  expiry_strategy : ExpiryStrategy := .fixed_window
  trial_expiration_basis : String := "from_issue"
  trial_duration_sec : Int := 0
  trial_one_per_device : Int := 0
  notes : String := ""
  created_at : Int
  updated_at : Int
  deriving DecidableEq

/-- SQL `lower`, which changes ASCII letters only. -/
def lower (s : String) : String := s.map Char.toLower

instance : Schema Policy where
  check p := p.trial_expiration_basis = "from_issue" ∨
    p.trial_expiration_basis = "from_first_activation" ∨ p.trial_expiration_basis = "from_first_use"
  clash a b := a.id = b.id ∨ (a.project = b.project ∧ lower a.name = lower b.name)
  clash_symm := Or.imp Eq.symm fun h => ⟨h.1.symm, h.2.symm⟩
  decCheck := fun _ => inferInstance
  decClash := fun _ _ => inferInstance

end Licensecc
