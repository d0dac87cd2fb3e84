-- The tables of customers and of entitlements. An entitlement is the grant
-- of one feature to one license: its status, its dates, its device limit and
-- its trial state.
import Licensecc.Sql.Table
import Mathlib.Algebra.Order.Group.Int

open Licensecc.Sql

namespace Licensecc

/-- `Number.MAX_SAFE_INTEGER`. -/
def maxSafeInteger : Int := 9007199254740991

/-- `BETWEEN 0 AND 9007199254740991`, and `Number.isSafeInteger(x) && x >= 0`. -/
abbrev SafeTime (x : Int) : Prop := 0 ≤ x ∧ x ≤ maxSafeInteger

/-! ## Customers -/

inductive CustomerStatus where
  | active
  | disabled
  deriving DecidableEq

structure Customer where
  id : String
  status : CustomerStatus
  authority_revision : Int

instance : Schema Customer where
  check c := SafeTime c.authority_revision
  clash a b := a.id = b.id
  beforeUpdate _ old new :=
    if new.authority_revision < old.authority_revision then some "authority_revision_cannot_shrink"
    else none
  clash_symm := Eq.symm
  decCheck := fun _ => inferInstance
  decClash := fun _ _ => inferInstance

/-! ## Entitlements -/

/-- The key of an entitlement, and of the rows that belong to one. -/
@[ext] structure EntitlementKey where
  project : String
  feature : String
  license_fingerprint : String
  deriving DecidableEq

inductive EntitlementStatus where
  | active
  | revoked
  | disabled
  deriving DecidableEq

structure Entitlement extends EntitlementKey where
  status : EntitlementStatus
  revocation_seq : Int := 0
  created_at : Int
  updated_at : Int
  valid_from : Option Int := none
  valid_until : Option Int := none
  notes : String := ""
  customer_id : String
  license_id : Option String := none
  max_active_devices : Int := 1
  lease_seconds : Int := 86400
  last_applied_order_seq : Int := -1
  last_applied_order_epoch : Int := 0
  policy_id : Option String := none
  is_trial : Int := 0
  trial_expiration_basis : Option String := none
  trial_duration_sec : Int := 0
  trial_one_per_device : Int := 0
  trial_started_at : Option Int := none
  trial_device_key_id : Option String := none
  authority_revision : Int := 0
  deriving DecidableEq

instance : Schema Entitlement where
  check e := (∃ c ∈ e.customer_id.toList, c ≠ ' ') ∧ SafeTime e.authority_revision
  clash a b := a.toEntitlementKey = b.toEntitlementKey
  beforeUpdate _ old new :=
    if new.authority_revision < old.authority_revision then some "authority_revision_cannot_shrink"
    else none
  clash_symm := Eq.symm
  decCheck := fun e =>
    @instDecidableAnd _ _ (List.decidableBEx (· ≠ ' ') e.customer_id.toList) inferInstance
  decClash := fun _ _ => inferInstance

/-- The columns whose change `tr_bound_entitlement_revision` watches. -/
structure Authority where
  status : EntitlementStatus
  customer_id : String
  valid_from : Option Int
  valid_until : Option Int
  max_active_devices : Int
  lease_seconds : Int
  revocation_seq : Int
  is_trial : Int
  trial_started_at : Option Int
  trial_duration_sec : Int
  trial_expiration_basis : Option String
  trial_one_per_device : Int
  trial_device_key_id : Option String
  deriving DecidableEq

def Entitlement.authorityOf (e : Entitlement) : Authority where
  status := e.status
  customer_id := e.customer_id
  valid_from := e.valid_from
  valid_until := e.valid_until
  max_active_devices := e.max_active_devices
  lease_seconds := e.lease_seconds
  revocation_seq := e.revocation_seq
  is_trial := e.is_trial
  trial_started_at := e.trial_started_at
  trial_duration_sec := e.trial_duration_sec
  trial_expiration_basis := e.trial_expiration_basis
  trial_one_per_device := e.trial_one_per_device
  trial_device_key_id := e.trial_device_key_id

/-- `tr_bound_entitlement_revision` after an update of one row. -/
def Entitlement.bumped (old new : Entitlement) : Entitlement :=
  if new.authorityOf = old.authorityOf then new
  else { new with authority_revision := old.authority_revision + 1 }

theorem Entitlement.clash_iff {a b : Entitlement} :
    Schema.clash a b ↔ a.toEntitlementKey = b.toEntitlementKey := Iff.rfl

theorem Customer.clash_iff {a b : Customer} : Schema.clash a b ↔ a.id = b.id := Iff.rfl

section
variable {old new : Entitlement}

@[simp] theorem Entitlement.bumped_key :
    (old.bumped new).toEntitlementKey = new.toEntitlementKey := by
  unfold Entitlement.bumped
  split <;> rfl

@[simp] theorem Entitlement.bumped_authorityOf :
    (old.bumped new).authorityOf = new.authorityOf := by
  unfold Entitlement.bumped
  split <;> rfl

/-- The revision trigger writes the revision and no other column. -/
theorem Entitlement.bumped_eq :
    old.bumped new = { new with authority_revision := (old.bumped new).authority_revision } := by
  unfold Entitlement.bumped
  split <;> rfl

/-- The revision trigger raises the revision by one or leaves it. -/
theorem Entitlement.bumped_revision (h : new.authority_revision = old.authority_revision) :
    old.authority_revision ≤ (old.bumped new).authority_revision ∧
      (old.bumped new).authority_revision ≤ old.authority_revision + 1 := by
  unfold Entitlement.bumped
  split
  · omega
  · dsimp only
    omega

theorem Entitlement.bumped_of_same (h : new.authorityOf = old.authorityOf) :
    old.bumped new = new := if_pos h

end

def exampleEntitlement : Entitlement where
  project := "p"
  feature := "f"
  license_fingerprint := "l"
  status := .active
  created_at := 0
  updated_at := 0
  customer_id := "alice"

end Licensecc
