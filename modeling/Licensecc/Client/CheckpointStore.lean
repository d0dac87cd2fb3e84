-- The store of checkpoints: two slots, the newer of which is the checkpoint. Every
-- operation of the storage can fail and the process can crash at each of them, and
-- still no later load gives an older checkpoint.
import Licensecc.Client.Checkpoint
import Licensecc.Conc.Dialog
import Mathlib.Logic.Function.Basic

open Licensecc.Codec Licensecc.Conc

namespace Licensecc.Client

/-! ## Storage -/

inductive BoundCheckpointIo where
  | ok
  | missing
  | busy
  | error
  deriving DecidableEq

inductive BoundCheckpointStatus where
  | saved
  | loaded
  | unchanged
  | missing
  | busy
  | stale
  | conflict
  | invalid_candidate
  | invalid_stored
  | storage_error
  | mirror_pending
  | commit_unknown
  deriving DecidableEq

/-- The operations that the store asks for. The storage is locked from `lock` to the
end of a call. -/
inductive StorageOp where
  | tryLock
  | lock
  | read (slot : Fin 2)
  | publish (slot : Fin 2) (token : Bytes)
  | confirm (slot : Fin 2) (token : Bytes)

structure StorageReply where
  io : BoundCheckpointIo
  token : Bytes

/-- What happens to one operation: its result, and for a publication whether the new
bytes are there. -/
structure StorageFault where
  io : BoundCheckpointIo
  written : Bool

abbrev Files := Fin 2 → Option Bytes

/-- A publication leaves the old bytes or the new ones, whatever its result is. -/
def answer (i : StorageFault) : StorageOp → Files → StorageReply × Files
  | .read slot, files =>
    if i.io = .ok ∨ i.io = .missing then
      match files slot with
      | none => (⟨.missing, []⟩, files)
      | some token => (⟨.ok, token⟩, files)
    else (⟨i.io, []⟩, files)
  | .publish slot token, files =>
    (⟨i.io, []⟩, if i.written then Function.update files slot (some token) else files)
  | .tryLock, files | .lock, files | .confirm .., files => (⟨i.io, []⟩, files)

/-- A program of the store. -/
abbrev Store (α : Type) := Dialog StorageOp StorageReply α

/-! ## The store -/

/-- The tokens of the slots that are present. -/
structure Slots where
  token : Files
  winner : Fin 2

def decision : BoundCheckpointDecision → BoundCheckpointStatus
  | .replace => .saved
  | .unchanged => .unchanged
  | .stale => .stale
  | .conflict => .conflict
  | .invalid_candidate => .invalid_candidate
  | .invalid_stored => .invalid_stored
  | .internal_error => .storage_error

/-- One turn of the loop of `read_slots`. -/
def readSlot (p : Pins) (i : Fin 2) (slots : Slots) : Store (BoundCheckpointStatus × Slots) := do
  let read ← Dialog.question (.read i)
  if read.io = .missing then return (.loaded, slots)
  else if read.io ≠ .ok then return (.storage_error, slots)
  else
    let slots := { slots with token := Function.update slots.token i (some read.token) }
    if compare_bound_checkpoints p read.token none ≠ .replace then return (.invalid_stored, slots)
    else return (.loaded, slots)

/-- What `read_slots` decides on the slots that it has read. -/
def selectWinner (p : Pins) (slots : Slots) : BoundCheckpointStatus × Slots :=
  match slots.token 0, slots.token 1 with
  | none, none => (.missing, slots)
  | none, some _ => (.loaded, { slots with winner := 1 })
  | some _, none => (.loaded, slots)
  | some first, some second =>
    let compared := compare_bound_checkpoints p second (some first)
    if compared = .replace then (.loaded, { slots with winner := 1 })
    else if compared ≠ .unchanged ∧ compared ≠ .stale then (decision compared, slots)
    else (.loaded, slots)

def read_slots (p : Pins) : Store (BoundCheckpointStatus × Slots) := do
  let first ← readSlot p 0 ⟨fun _ => none, 0⟩
  if first.1 ≠ .loaded then return first
  else
    let second ← readSlot p 1 first.2
    if second.1 ≠ .loaded then return second
    else return selectWinner p second.2

def publish (p : Pins) (target : Fin 2) (token : Bytes) (before : Slots) :
    Store BoundCheckpointStatus := do
  let published ← Dialog.question (.publish target token)
  let read ← read_slots p
  let after := read.2
  let other := 1 - target
  if read.1 ≠ .loaded ∧ read.1 ≠ .missing then return .commit_unknown
  else if after.token other ≠ before.token other then return .commit_unknown
  else if after.token target = some token then
    return if published.io = .ok then .saved else .commit_unknown
  else if after.token target = before.token target then return .storage_error
  else return .commit_unknown

/-- The status of a lock that is not held. -/
def lockStatus (io : BoundCheckpointIo) : BoundCheckpointStatus :=
  if io = .busy then .busy else .storage_error

def load (p : Pins) : Store (BoundCheckpointStatus × Option Bytes) := do
  let owned ← Dialog.question .tryLock
  if owned.io ≠ .ok then return (.busy, none)
  else
    let acquired ← Dialog.question .lock
    if acquired.io ≠ .ok then return (lockStatus acquired.io, none)
    else
      let read ← read_slots p
      if read.1 = .loaded then return (read.1, read.2.token read.2.winner)
      else return (read.1, none)

/-- The end of `save` when both slots hold the candidate. -/
def confirmBoth (p : Pins) (candidate : Bytes) : Store BoundCheckpointStatus := do
  let first ← Dialog.question (.confirm 0 candidate)
  if first.io ≠ .ok then return .commit_unknown
  else
    let second ← Dialog.question (.confirm 1 candidate)
    if second.io ≠ .ok then return .commit_unknown
    else
      let confirmed ← read_slots p
      if confirmed.1 ≠ .loaded ∨ confirmed.2.token 0 ≠ some candidate ∨
          confirmed.2.token 1 ≠ some candidate then return .commit_unknown
      else return .unchanged

/-- The end of `save` that publishes the candidate to one slot and then to its mirror. -/
def publishBoth (p : Pins) (candidate : Bytes) (target : Fin 2) (slots : Slots) :
    Store BoundCheckpointStatus := do
  let after_first := { slots with token := Function.update slots.token target (some candidate) }
  let mirror := 1 - target
  let result ← publish p target candidate slots
  if result ≠ .saved then return result
  else if after_first.token mirror = some candidate then return .saved
  else
    let result ← publish p mirror candidate after_first
    if result = .saved then return .saved
    else if result = .storage_error then return .mirror_pending
    else return .commit_unknown

def save (p : Pins) (candidate : Bytes) : Store BoundCheckpointStatus := do
  let owned ← Dialog.question .tryLock
  if owned.io ≠ .ok then return .busy
  else if compare_bound_checkpoints p candidate none ≠ .replace then return .invalid_candidate
  else
    let acquired ← Dialog.question .lock
    if acquired.io ≠ .ok then return lockStatus acquired.io
    else
      let read ← read_slots p
      let slots := read.2
      if read.1 ≠ .loaded ∧ read.1 ≠ .missing then return read.1
      else
        let current := if read.1 = .missing then none else slots.token slots.winner
        let compared := compare_bound_checkpoints p candidate current
        if compared ≠ .replace ∧ compared ≠ .unchanged then return decision compared
        else if compared = .unchanged ∧ slots.token slots.winner = some candidate ∧
            slots.token (1 - slots.winner) = some candidate then confirmBoth p candidate
        else
          let target := if read.1 = .missing then 0 else 1 - slots.winner
          publishBoth p candidate target slots

/-! ## What is read -/

variable {p : Pins} {files s : Files} {C : Files → Prop}

/-- The statuses that say that the candidate is stored. -/
def Stored (r : BoundCheckpointStatus) : Prop := r = .saved ∨ r = .unchanged

theorem stored_decision {d : BoundCheckpointDecision} (h : Stored (decision d)) :
    d = .replace ∨ d = .unchanged := by
  unfold Stored at h
  cases d <;> simp [decision] at h ⊢

/-- Every token of a slot is verified. -/
def Verified (p : Pins) (files : Files) : Prop :=
  ∀ i t, files i = some t → compare_bound_checkpoints p t none = .replace

/-- The two slots hold checkpoints of which neither can take the place of the other. -/
def Conflicting (p : Pins) (files : Files) : Prop :=
  ∃ first second, files 0 = some first ∧ files 1 = some second ∧
    compare_bound_checkpoints p second (some first) = .conflict

theorem answer_read (i : StorageFault) (slot : Fin 2) (files : Files) :
    (answer i (.read slot) files).2 = files ∧
      ((answer i (.read slot) files).1.io = .missing → files slot = none) ∧
      ((answer i (.read slot) files).1.io = .ok →
        files slot = some (answer i (.read slot) files).1.token) := by
  by_cases h : i.io = .ok ∨ i.io = .missing
  · cases hslot : files slot with
    | none => simp [answer, h, hslot]
    | some t => simp [answer, h, hslot]
  · rw [not_or] at h
    simp [answer, h]

theorem readSlot_ok (hc : C files) {slots : Slots} {i : Fin 2} (hnone : slots.token i = none) :
    Dialog.Ensures answer (fun r s => s = files ∧ (r.1 ≠ .missing ∧ ¬ Stored r.1) ∧ (r.1 = .loaded →
      r.2 = { slots with token := Function.update slots.token i (files i) } ∧
        ∀ t, files i = some t → compare_bound_checkpoints p t none = .replace))
      C (readSlot p i slots) files := by
  unfold readSlot
  refine Dialog.Ensures.bind (Q := fun r s => s = files ∧ (r.io = .missing → files i = none) ∧
    (r.io = .ok → files i = some r.token)) (Dialog.Ensures.question hc fun f => answer_read f i files) ?_
  rintro r s ⟨rfl, hmissing, hok⟩
  split_ifs with h1 h2 h3
  · refine Dialog.Ensures.done ⟨rfl, by simp [Stored], fun _ => ⟨?_, ?_⟩⟩
    · rw [hmissing h1, ← hnone, Function.update_eq_self]
    · intro t ht
      rw [hmissing h1] at ht
      cases ht
  · exact Dialog.Ensures.done ⟨rfl, by simp [Stored], fun h => by cases h⟩
  · exact Dialog.Ensures.done ⟨rfl, by simp [Stored], fun h => by cases h⟩
  · rw [not_not] at h2 h3
    refine Dialog.Ensures.done ⟨rfl, by simp [Stored], fun _ => ⟨by rw [hok h2], ?_⟩⟩
    intro t ht
    obtain rfl := Option.some.inj ((hok h2).symm.trans ht)
    exact h3

/-- What is read when the reading succeeds. -/
structure ReadOf (p : Pins) (files : Files) (r : BoundCheckpointStatus × Slots) : Prop where
  token : r.2.token = files
  verified : Verified p files
  select : selectWinner p ⟨files, 0⟩ = r

theorem selectWinner_token (p : Pins) (slots : Slots) :
    (selectWinner p slots).2.token = slots.token := by
  unfold selectWinner
  split
  · rfl
  · rfl
  · rfl
  · dsimp only
    split_ifs <;> rfl

theorem not_stored_select (slots : Slots) : ¬ Stored (selectWinner p slots).1 := by
  unfold selectWinner
  split
  · simp [Stored]
  · simp [Stored]
  · simp [Stored]
  · dsimp only
    split_ifs with h1 h2
    · simp [Stored]
    · intro h
      rcases stored_decision h with h | h
      · exact h1 h
      · exact h2.1 h
    · simp [Stored]

/-- Reading changes nothing, and succeeds only with what is there. -/
theorem read_slots_ok (hc : C files) : Dialog.Ensures answer (fun r s => s = files ∧
    ¬ Stored r.1 ∧ (r.1 = .loaded ∨ r.1 = .missing → ReadOf p files r))
    C (read_slots p) files := by
  unfold read_slots
  refine Dialog.Ensures.bind (readSlot_ok hc rfl) ?_
  rintro first s ⟨rfl, ⟨hmissing, hstored⟩, hfirst⟩
  split_ifs with h1
  · exact Dialog.Ensures.done ⟨rfl, hstored, fun h => absurd h (not_or.mpr ⟨h1, hmissing⟩)⟩
  rw [not_not] at h1
  obtain ⟨hslots, hv0⟩ := hfirst h1
  rw [hslots]
  refine Dialog.Ensures.bind (readSlot_ok hc ?_) ?_
  · rfl
  rintro second s ⟨rfl, ⟨hmissing', hstored'⟩, hsecond⟩
  split_ifs with h2
  · exact Dialog.Ensures.done ⟨rfl, hstored', fun h => absurd h (not_or.mpr ⟨h2, hmissing'⟩)⟩
  rw [not_not] at h2
  obtain ⟨hslots', hv1⟩ := hsecond h2
  refine Dialog.Ensures.done ⟨rfl, not_stored_select _, fun _ => ?_⟩
  have htoken : second.2 = ⟨s, 0⟩ := by
    rw [hslots']
    congr 1
    exact funext (Fin.forall_fin_two.mpr ⟨rfl, rfl⟩)
  rw [htoken]
  exact ⟨selectWinner_token p _, Fin.forall_fin_two.mpr ⟨hv0, hv1⟩, rfl⟩

/-- The winner is not older than what either slot holds, and the slots do not conflict. -/
theorem ReadOf.loaded {r : BoundCheckpointStatus × Slots} (h : ReadOf p files r)
    (hl : r.1 = .loaded) : ∃ w, files r.2.winner = some w ∧
      (∀ j t, files j = some t → NotOlder p w t) ∧ ¬ Conflicting p files := by
  have hself : ∀ {i t}, files i = some t → NotOlder p t t := fun ht => notOlder_refl (h.verified _ _ ht)
  have hselect := h.select
  unfold selectWinner at hselect
  cases h0 : files 0 with
  | none =>
    cases h1 : files 1 with
    | none =>
      simp only [h0, h1] at hselect
      rw [← hselect] at hl
      cases hl
    | some t1 =>
      simp only [h0, h1] at hselect
      rw [← hselect]
      refine ⟨t1, h1, Fin.forall_fin_two.mpr ⟨fun t ht => ?_, fun t ht => ?_⟩, ?_⟩
      · rw [h0] at ht
        cases ht
      · rw [h1] at ht
        exact Option.some.inj ht ▸ hself h1
      · rintro ⟨a, b, ha, -⟩
        rw [h0] at ha
        cases ha
  | some t0 =>
    cases h1 : files 1 with
    | none =>
      simp only [h0, h1] at hselect
      rw [← hselect]
      refine ⟨t0, h0, Fin.forall_fin_two.mpr ⟨fun t ht => ?_, fun t ht => ?_⟩, ?_⟩
      · rw [h0] at ht
        exact Option.some.inj ht ▸ hself h0
      · rw [h1] at ht
        cases ht
      · rintro ⟨a, b, -, hb, -⟩
        rw [h1] at hb
        cases hb
    | some t1 =>
      simp only [h0, h1] at hselect
      have hconflict : Conflicting p files ↔
          compare_bound_checkpoints p t1 (some t0) = .conflict := by
        unfold Conflicting
        simp [h0, h1]
      rw [hconflict]
      split_ifs at hselect with hc hc'
      · rw [← hselect]
        refine ⟨t1, h1, Fin.forall_fin_two.mpr ⟨fun t ht => ?_, fun t ht => ?_⟩, by simp [hc]⟩
        · rw [h0] at ht
          exact Option.some.inj ht ▸ .inl hc
        · rw [h1] at ht
          exact Option.some.inj ht ▸ hself h1
      · rw [← hselect] at hl
        dsimp only at hl
        cases hd : compare_bound_checkpoints p t1 (some t0) <;> simp [hd, decision] at hl
      · have hor : compare_bound_checkpoints p t1 (some t0) = .unchanged ∨
            compare_bound_checkpoints p t1 (some t0) = .stale := by
          by_contra hno
          rw [not_or] at hno
          exact hc' hno
        rw [← hselect]
        refine ⟨t0, h0, Fin.forall_fin_two.mpr ⟨fun t ht => ?_, fun t ht => ?_⟩, ?_⟩
        · rw [h0] at ht
          exact Option.some.inj ht ▸ hself h0
        · rw [h1] at ht
          exact Option.some.inj ht ▸ notOlder_of_compare hor
        · rcases hor with hor | hor
          · simp [hor]
          · simp [hor]

theorem ReadOf.missing {r : BoundCheckpointStatus × Slots} (h : ReadOf p files r)
    (hm : r.1 = .missing) : files = fun _ => none := by
  have hselect := h.select
  unfold selectWinner at hselect
  cases h0 : files 0 with
  | none =>
    cases h1 : files 1 with
    | none => exact funext (Fin.forall_fin_two.mpr ⟨h0, h1⟩)
    | some t1 =>
      simp only [h0, h1] at hselect
      rw [← hselect] at hm
      cases hm
  | some t0 =>
    cases h1 : files 1 with
    | none =>
      simp only [h0, h1] at hselect
      rw [← hselect] at hm
      cases hm
    | some t1 =>
      simp only [h0, h1] at hselect
      split_ifs at hselect with hc hc'
      · rw [← hselect] at hm
        cases hm
      · rw [← hselect] at hm
        dsimp only at hm
        cases hd : compare_bound_checkpoints p t1 (some t0) <;> simp [hd, decision] at hm
      · rw [← hselect] at hm
        cases hm

/-! ## What is kept -/

/-- A slot holds a checkpoint that is not older. -/
def AtLeast (p : Pins) (files : Files) (t : Bytes) : Prop :=
  ∃ i w, files i = some w ∧ NotOlder p w t

/-- What a call keeps of the slots. -/
structure Kept (p : Pins) (files s : Files) : Prop where
  atLeast : ∀ t, AtLeast p files t → AtLeast p s t
  conflict : Conflicting p s → Conflicting p files

theorem Kept.refl (p : Pins) (files : Files) : Kept p files files := ⟨fun _ h => h, fun h => h⟩

theorem Kept.trans {a b c : Files} (h : Kept p a b) (h' : Kept p b c) : Kept p a c :=
  ⟨fun t ht => h'.atLeast t (h.atLeast t ht), fun hc => h.conflict (h'.conflict hc)⟩

theorem forall_slot {P : Fin 2 → Prop} (i : Fin 2) (h : P i) (h' : P (1 - i)) : ∀ j, P j := by
  revert i
  rw [Fin.forall_fin_two]
  exact ⟨fun h0 h1 => Fin.forall_fin_two.mpr ⟨h0, h1⟩, fun h1 h0 => Fin.forall_fin_two.mpr ⟨h0, h1⟩⟩

theorem other_ne (i : Fin 2) : 1 - i ≠ i := by
  revert i
  decide

/-- A checkpoint that no slot is newer than. -/
def Above (p : Pins) (files : Files) (c : Bytes) : Prop :=
  ∀ i t, files i = some t → NotOlder p c t

/-- A checkpoint takes the place of all others when both slots hold it. -/
theorem kept_both {c : Bytes} (hc : compare_bound_checkpoints p c none = .replace)
    (habove : Above p files c) (h : ∀ i, s i = some c) : Kept p files s := by
  constructor
  · rintro t ⟨i, w, hw, ht⟩
    exact ⟨0, c, h 0, notOlder_trans (habove i w hw) ht⟩
  · rintro ⟨a, b, ha, hb, hconflict⟩
    obtain rfl := Option.some.inj ((h 0).symm.trans ha)
    obtain rfl := Option.some.inj ((h 1).symm.trans hb)
    exact absurd hconflict (notOlder_refl hc).not_conflict.1

/-- A checkpoint in the slot that is not the winner loses nothing. -/
theorem kept_loser {c w : Bytes} {i : Fin 2} (hw : files i = some w) (hcw : NotOlder p c w)
    (hall : ∀ j t, files j = some t → NotOlder p w t) :
    Kept p files (Function.update files (1 - i) (some c)) := by
  have hwinner : Function.update files (1 - i) (some c) i = some w := by
    rw [Function.update_of_ne (other_ne i).symm, hw]
  have hloser : Function.update files (1 - i) (some c) (1 - i) = some c := Function.update_self ..
  constructor
  · rintro t ⟨j, v, hv, ht⟩
    exact ⟨i, w, hwinner, notOlder_trans (hall j v hv) ht⟩
  · rintro ⟨a, b, ha, hb, hconflict⟩
    exfalso
    have hcases : i = 0 ∨ i = 1 := by omega
    rcases hcases with rfl | rfl
    · obtain rfl := Option.some.inj (hwinner.symm.trans ha)
      obtain rfl := Option.some.inj (hloser.symm.trans hb)
      exact hcw.not_conflict.1 hconflict
    · obtain rfl := Option.some.inj (hwinner.symm.trans hb)
      obtain rfl := Option.some.inj (hloser.symm.trans ha)
      exact hcw.not_conflict.2 hconflict

/-- The first checkpoint of an empty store. -/
theorem kept_first (hempty : files = fun _ => none) (c : Bytes) :
    Kept p files (Function.update files 0 (some c)) := by
  subst hempty
  constructor
  · rintro t ⟨i, w, hw, -⟩
    cases hw
  · rintro ⟨a, b, -, hb, -⟩
    cases hb

/-! ## The calls -/

/-- A publication leaves the other slot as it is, and is saved only when it is there. -/
theorem publish_ok {before : Slots} {target : Fin 2} {token : Bytes} (hbefore : before.token = files)
    (hc : C files) (hc' : C (Function.update files target (some token))) :
    Dialog.Ensures answer (fun r s =>
      (s = files ∨ s = Function.update files target (some token)) ∧ r ≠ .unchanged ∧
        (r = .saved → s = Function.update files target (some token)))
      C (publish p target token before) files := by
  unfold publish
  refine Dialog.Ensures.bind (Q := fun _ s =>
    s = files ∨ s = Function.update files target (some token)) ?_ ?_
  · refine Dialog.Ensures.question hc fun i => ?_
    unfold answer
    dsimp only
    split_ifs
    · exact .inr rfl
    · exact .inl rfl
  intro published s hs
  have hcs : C s := by
    rcases hs with rfl | rfl
    · exact hc
    · exact hc'
  refine Dialog.Ensures.bind (read_slots_ok hcs) ?_
  rintro read s' ⟨rfl, -, hread⟩
  dsimp only
  split_ifs with h1 h2 h3 h4 h5
  · exact Dialog.Ensures.done ⟨hs, by simp, fun h => by cases h⟩
  · exact Dialog.Ensures.done ⟨hs, by simp, fun h => by cases h⟩
  · refine Dialog.Ensures.done ⟨hs, by simp, fun _ => ?_⟩
    have hok : read.1 = .loaded ∨ read.1 = .missing := by
      by_contra hno
      exact h1 (not_or.mp hno)
    rw [(hread hok).token] at h2 h3
    rw [hbefore, not_not] at h2
    have hother : Function.update files target (some token) (1 - target) = files (1 - target) := by
      rw [Function.update_of_ne (other_ne target)]
    refine funext (forall_slot target ?_ ?_)
    · rw [h3, Function.update_self]
    · rw [h2, hother]
  · exact Dialog.Ensures.done ⟨hs, by simp, fun h => by cases h⟩
  · exact Dialog.Ensures.done ⟨hs, by simp, fun h => by cases h⟩
  · exact Dialog.Ensures.done ⟨hs, by simp, fun h => by cases h⟩

/-- A load changes nothing, and gives a checkpoint that no slot is newer than. -/
theorem load_ok (hc : C files) : Dialog.Ensures answer (fun r s => s = files ∧
    ∀ t, r = (.loaded, some t) → AtLeast p files t ∧ ∀ u, AtLeast p files u → NotOlder p t u)
    C (load p) files := by
  have hsame : ∀ (i : StorageFault) (o : StorageOp), o = .tryLock ∨ o = .lock →
      (answer i o files).2 = files := by
    rintro i o (rfl | rfl)
    · rfl
    · rfl
  unfold load
  refine Dialog.Ensures.bind (Q := fun _ s => s = files)
    (Dialog.Ensures.question hc fun i => hsame i _ (.inl rfl)) ?_
  rintro owned s rfl
  split_ifs with h1
  · exact Dialog.Ensures.done ⟨rfl, fun t h => by cases (Prod.mk.inj h).2⟩
  refine Dialog.Ensures.bind (Q := fun _ s' => s' = s)
    (Dialog.Ensures.question hc fun i => hsame i _ (.inr rfl)) ?_
  rintro acquired s rfl
  split_ifs with h2
  · exact Dialog.Ensures.done ⟨rfl, fun t h => by cases (Prod.mk.inj h).2⟩
  refine Dialog.Ensures.bind (read_slots_ok hc) ?_
  rintro read s ⟨rfl, -, hread⟩
  split_ifs with h3
  · refine Dialog.Ensures.done ⟨rfl, fun t ht => ?_⟩
    have hok := hread (.inl h3)
    obtain ⟨w, hw, hall, -⟩ := hok.loaded h3
    have htoken := (Prod.mk.inj ht).2
    rw [hok.token, hw] at htoken
    obtain rfl := Option.some.inj htoken
    refine ⟨⟨_, w, hw, hall _ w hw⟩, ?_⟩
    rintro u ⟨j, v, hv, hvu⟩
    exact notOlder_trans (hall j v hv) hvu
  · exact Dialog.Ensures.done ⟨rfl, fun t h => by cases (Prod.mk.inj h).2⟩

theorem confirmBoth_ok {c : Bytes} (hc : C files) : Dialog.Ensures answer (fun r s => s = files ∧
    (Stored r → ∀ i, files i = some c)) C (confirmBoth p c) files := by
  unfold confirmBoth
  refine Dialog.Ensures.bind (Q := fun _ s => s = files)
    (Dialog.Ensures.question hc fun i => rfl) ?_
  rintro first s rfl
  split_ifs with h1
  · exact Dialog.Ensures.done ⟨rfl, by simp [Stored]⟩
  refine Dialog.Ensures.bind (Q := fun _ s' => s' = s)
    (Dialog.Ensures.question hc fun i => rfl) ?_
  rintro second s rfl
  split_ifs with h2
  · exact Dialog.Ensures.done ⟨rfl, by simp [Stored]⟩
  refine Dialog.Ensures.bind (read_slots_ok hc) ?_
  rintro confirmed s ⟨rfl, -, hread⟩
  split_ifs with h3
  · exact Dialog.Ensures.done ⟨rfl, by simp [Stored]⟩
  rw [not_or, not_or, not_not, not_not, not_not] at h3
  obtain ⟨hloaded, h0, h1⟩ := h3
  rw [(hread (.inl hloaded)).token] at h0 h1
  exact Dialog.Ensures.done ⟨rfl, fun _ => Fin.forall_fin_two.mpr ⟨h0, h1⟩⟩

theorem publishBoth_ok {c : Bytes} {target : Fin 2} {slots : Slots} (hslots : slots.token = files)
    (hc : C files) (hfirst : C (Function.update files target (some c)))
    (hboth : ∀ s : Files, (∀ i, s i = some c) → C s) :
    Dialog.Ensures answer (fun r s => C s ∧ (Stored r → ∀ i, s i = some c))
      C (publishBoth p c target slots) files := by
  unfold publishBoth
  refine Dialog.Ensures.bind (publish_ok hslots hc hfirst) ?_
  rintro result s ⟨hs, hnot, hsaved⟩
  have hcs : C s := by
    rcases hs with rfl | rfl
    · exact hc
    · exact hfirst
  dsimp only
  split_ifs with h1 h2
  · refine Dialog.Ensures.done ⟨hcs, ?_⟩
    rintro (h | h)
    · exact absurd h h1
    · exact absurd h hnot
  · obtain rfl := hsaved (not_not.mp h1)
    refine Dialog.Ensures.done ⟨hcs, fun _ => forall_slot target (Function.update_self ..) ?_⟩
    rw [← hslots]
    exact h2
  · obtain rfl := hsaved (not_not.mp h1)
    have hall : ∀ i, Function.update (Function.update files target (some c)) (1 - target) (some c) i =
        some c := by
      refine forall_slot target ?_ (Function.update_self ..)
      rw [Function.update_of_ne (other_ne target).symm, Function.update_self]
    refine Dialog.Ensures.bind (publish_ok (by rw [hslots]) hcs (hboth _ hall)) ?_
    rintro result s ⟨hs, -, hsaved'⟩
    have hcs' : C s := by
      rcases hs with rfl | rfl
      · exact hcs
      · exact hboth _ hall
    split_ifs with h3 h4
    · obtain rfl := hsaved' h3
      exact Dialog.Ensures.done ⟨hcs', fun _ => hall⟩
    · exact Dialog.Ensures.done ⟨hcs', by simp [Stored]⟩
    · exact Dialog.Ensures.done ⟨hcs', by simp [Stored]⟩

/-- A save loses nothing, and the checkpoint that it has stored is in both slots. -/
theorem save_ok (c : Bytes) (files : Files) : Dialog.Ensures answer (fun r s => Kept p files s ∧
    (Stored r → (∀ i, s i = some c) ∧ compare_bound_checkpoints p c none = .replace))
    (Kept p files) (save p c) files := by
  have hstay := Kept.refl p files
  unfold save
  refine Dialog.Ensures.bind (Q := fun _ s => s = files)
    (Dialog.Ensures.question hstay fun i => rfl) ?_
  rintro owned s rfl
  split_ifs with h1 hvalid
  · exact Dialog.Ensures.done ⟨hstay, by simp [Stored]⟩
  · exact Dialog.Ensures.done ⟨hstay, by simp [Stored]⟩
  rw [not_not] at hvalid
  refine Dialog.Ensures.bind (Q := fun _ s' => s' = s)
    (Dialog.Ensures.question hstay fun i => rfl) ?_
  rintro acquired s rfl
  by_cases h2 : acquired.io ≠ .ok
  · rw [if_pos h2]
    refine Dialog.Ensures.done ⟨hstay, ?_⟩
    unfold lockStatus
    split_ifs <;> simp [Stored]
  rw [if_neg h2]
  refine Dialog.Ensures.bind (read_slots_ok hstay) ?_
  rintro read s ⟨rfl, hstored, hread⟩
  dsimp only
  by_cases h3 : read.1 ≠ .loaded ∧ read.1 ≠ .missing
  · rw [if_pos h3]
    exact Dialog.Ensures.done ⟨hstay, fun h => absurd h hstored⟩
  rw [if_neg h3]
  have hok : read.1 = .loaded ∨ read.1 = .missing := by
    by_contra hno
    exact h3 (not_or.mp hno)
  have hof := hread hok
  generalize hcurrent : (if read.1 = .missing then none else read.2.token read.2.winner) = current
  by_cases h4 : compare_bound_checkpoints p c current ≠ .replace ∧
      compare_bound_checkpoints p c current ≠ .unchanged
  · rw [if_pos h4]
    refine Dialog.Ensures.done ⟨hstay, fun h => ?_⟩
    rcases stored_decision h with h | h
    · exact absurd h h4.1
    · exact absurd h h4.2
  rw [if_neg h4]
  split_ifs with h5 h6
  · exact (confirmBoth_ok hstay).mono
      (fun r s' ⟨hs, hr⟩ => ⟨hs ▸ hstay, fun h => ⟨hs ▸ hr h, hvalid⟩⟩) fun _ h => h
  · -- No slot is present: every checkpoint is above the others.
    have hempty := hof.missing h6
    refine (publishBoth_ok hof.token hstay (kept_first hempty c) fun s' hs' => ?_).mono
      (fun r s' hr => ⟨hr.1, fun h => ⟨hr.2 h, hvalid⟩⟩) fun _ h => h
    refine kept_both hvalid ?_ hs'
    intro i t ht
    rw [hempty] at ht
    cases ht
  · -- The winner is above the other slot, and the candidate is above the winner.
    obtain ⟨w, hw, hall, -⟩ := hof.loaded (hok.resolve_right h6)
    rw [if_neg h6, hof.token, hw] at hcurrent
    subst hcurrent
    have hcw : NotOlder p c w := by
      by_contra hno
      exact h4 (not_or.mp hno)
    refine (publishBoth_ok hof.token hstay (kept_loser hw hcw hall) fun s' hs' => ?_).mono
      (fun r s' hr => ⟨hr.1, fun h => ⟨hr.2 h, hvalid⟩⟩) fun _ h => h
    exact kept_both hvalid (fun i t ht => notOlder_trans hcw (hall i t ht)) hs'

/-! ## Runs of calls -/

inductive StoreCall where
  | save (candidate : Bytes)
  | load

def program (p : Pins) : StoreCall → Store (BoundCheckpointStatus × Option Bytes)
  | .save candidate => do return (← save p candidate, none)
  | .load => load p

abbrev StoreEvent := Dialog.Event StoreCall (BoundCheckpointStatus × Option Bytes) Files

/-- The event has told its caller that the store holds a checkpoint. -/
def Settles (e : StoreEvent) (t : Bytes) : Prop :=
  (e.call = .save t ∧ (e.result = some (.saved, none) ∨ e.result = some (.unchanged, none))) ∨
    (e.call = .load ∧ e.result = some (.loaded, some t))

def Loads (e : StoreEvent) (t : Bytes) : Prop :=
  e.call = .load ∧ e.result = some (.loaded, some t)

theorem program_save (c : Bytes) (files : Files) : Dialog.Ensures answer
    (fun r s => Kept p files s ∧ (Stored r.1 →
      (∀ i, s i = some c) ∧ compare_bound_checkpoints p c none = .replace))
    (Kept p files) (program p (.save c)) files := by
  unfold program
  exact Dialog.Ensures.bind (save_ok c files) fun r s h => Dialog.Ensures.done h

/-- Whatever happens in a call, nothing is lost. -/
theorem kept_run (call : StoreCall) (files : Files) (is : List StorageFault) :
    Kept p files ((program p call).run answer files is).2 := by
  cases call with
  | save c =>
    have h := (program_save (p := p) c files).run is
    cases hr : ((program p (.save c)).run answer files is).1 with
    | none => exact h.2 hr
    | some r => exact (h.1 r hr).1
  | load =>
    have h := (load_ok (p := p) (C := fun s => s = files) rfl).run is
    have hsame : ((load p).run answer files is).2 = files := by
      cases hr : ((load p).run answer files is).1 with
      | none => exact h.2 hr
      | some r => exact (h.1 r hr).1
    change Kept p files ((load p).run answer files is).2
    rw [hsame]
    exact Kept.refl p files

variable {e : StoreEvent} {is : List StorageFault}

/-- What a call settles is in the store after it. -/
theorem atLeast_of_settles (hrun : (program p e.call).run answer e.before is = (e.result, e.after))
    {t : Bytes} (h : Settles e t) : AtLeast p e.after t := by
  rcases h with ⟨hcall, hr⟩ | ⟨hcall, hr⟩
  · have hsave := (program_save (p := p) t e.before).run is
    rw [hcall] at hrun
    have hstored : ∃ r, e.result = some (r, none) ∧ Stored r := by
      rcases hr with hr | hr
      · exact ⟨.saved, hr, .inl rfl⟩
      · exact ⟨.unchanged, hr, .inr rfl⟩
    obtain ⟨r, hr, hs⟩ := hstored
    rw [hrun] at hsave
    obtain ⟨hall, hvalid⟩ := (hsave.1 _ hr).2 hs
    exact ⟨0, t, hall 0, notOlder_refl hvalid⟩
  · have hload := (load_ok (p := p) (C := fun s => s = e.before) rfl).run is
    rw [hcall] at hrun
    change (load p).run answer e.before is = _ at hrun
    rw [hrun] at hload
    obtain ⟨hsame, ht⟩ := hload.1 _ hr
    have hafter : e.after = e.before := hsame
    rw [hafter]
    exact (ht t rfl).1

/-- A load gives a checkpoint that nothing in the store is newer than. -/
theorem notOlder_of_loads (hrun : (program p e.call).run answer e.before is = (e.result, e.after))
    {t u : Bytes} (h : Loads e t) (hu : AtLeast p e.before u) : NotOlder p t u := by
  have hload := (load_ok (p := p) (C := fun s => s = e.before) rfl).run is
  rw [h.1] at hrun
  change (load p).run answer e.before is = _ at hrun
  rw [hrun] at hload
  exact ((hload.1 _ h.2).2 t rfl).2 u hu

theorem slots_of_saved (hrun : (program p e.call).run answer e.before is = (e.result, e.after))
    {c : Bytes} (hcall : e.call = .save c) (hr : e.result = some (.saved, none)) :
    ∀ i, e.after i = some c := by
  have hsave := (program_save (p := p) c e.before).run is
  rw [hcall] at hrun
  rw [hrun] at hsave
  exact ((hsave.1 _ hr).2 (.inl rfl)).1

/-- The order of checkpoints is strict. In every run of saves and loads, from any slots,
with failures and crashes at every operation: a load gives a checkpoint that is not
older than any that an earlier call has settled, the slots do not come to conflict, and
a saved checkpoint is in both slots. -/
theorem checkpoints_never_go_back (p : Pins) :
    (∀ a, ¬ Older p a a) ∧ (∀ a b c, Older p a b → Older p b c → Older p a c) ∧
    ∀ (files : Files) (calls : List (StoreCall × List StorageFault)),
      ((Dialog.trace answer (program p) files calls).Pairwise fun e e' =>
        ∀ t t', Settles e t → Loads e' t' → NotOlder p t' t ∧ ¬ Older p t' t) ∧
      (∀ e ∈ Dialog.trace answer (program p) files calls,
        Conflicting p e.after → Conflicting p files) ∧
      (∀ e ∈ Dialog.trace answer (program p) files calls, ∀ c, e.call = .save c →
        e.result = some (.saved, none) → e.after 0 = some c ∧ e.after 1 = some c) := by
  refine ⟨older_irrefl, fun a b c => older_trans, fun files calls => ⟨?_, ?_, ?_⟩⟩
  · have hkept := Dialog.trace_pairwise (R := Kept p) (Kept.refl p) Kept.trans kept_run files calls
    refine hkept.imp_of_mem ?_
    intro e e' he he' h t t' ht ht'
    obtain ⟨is, hrun⟩ := Dialog.run_of_mem_trace he
    obtain ⟨is', hrun'⟩ := Dialog.run_of_mem_trace he'
    have hnot := notOlder_of_loads hrun' ht' (h.atLeast t (atLeast_of_settles hrun ht))
    exact ⟨hnot, hnot.not_older⟩
  · intro e he
    exact (Dialog.trace_rel (Kept.refl p) Kept.trans kept_run he).2.conflict
  · intro e he c hcall hr
    obtain ⟨is, hrun⟩ := Dialog.run_of_mem_trace he
    have hall := slots_of_saved hrun hcall hr
    exact ⟨hall 0, hall 1⟩

end Licensecc.Client
