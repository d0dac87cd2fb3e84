-- The laws of exactly-once issue. However many runs of one operation overlap,
-- retry or crash, one of them issues, and every run that succeeds returns
-- what that one has stored.
import Licensecc.Device.Issue
import Licensecc.Device.Slots

open Licensecc.Sql Licensecc.Conc

namespace Licensecc

/-! ## The programs -/

/-- What a program of the device system ends with: an issue with its request,
or nothing. -/
abbrev Outcome := Option (BoundRequest × Except IssueError LeaseResponse)

def issueRun (k : IssueEnv) (request : BoundRequest) (ids : IssueIds) :
    Prog DeviceWorld DeviceWrite DeviceResult Outcome := do
  let r ← (issueBoundLease k request ids).run
  return some (request, r)

def changeRun (c : DeviceChange) : Prog DeviceWorld DeviceWrite DeviceResult Outcome := do
  let _ ← Prog.request (.change c)
  return none

/-- The programs that can start: issues, and any other write. -/
inductive DeviceRun : Prog DeviceWorld DeviceWrite DeviceResult Outcome → Prop
  | issue (k : IssueEnv) (request : BoundRequest) (ids : IssueIds) :
      DeviceRun (issueRun k request ids)
  | change (c : DeviceChange) : DeviceRun (changeRun c)

/-! ## The log -/

def BoundRequest.operationKey (r : BoundRequest) : OperationKey :=
  ⟨r.proof.key_id, r.purpose, r.operation_id⟩

abbrev DeviceEntry := Entry Db DeviceWrite DeviceResult

/-- The write was a commit, and it has issued this response for the key. -/
def Issues (key : OperationKey) (r : LeaseResponse) (e : DeviceEntry) : Prop :=
  ∃ p, e.write = .commit p ∧ p.operationKey = key ∧ e.result = .issued r

/-- The write was a recovery, and it has returned this response for the
key. -/
def Recovers (key : OperationKey) (r : LeaseResponse) (e : DeviceEntry) : Prop :=
  ∃ p, e.write = .recover p ∧ p.operationKey = key ∧ e.result = .recovered r

/-- Two writes have not both issued for one key. -/
def Apart (e e' : DeviceEntry) : Prop := ∀ key r r', Issues key r e → ¬ Issues key r' e'

instance : Std.Symm Apart where
  symm := fun _ _ h key r r' h1 h2 => h key r' r h2 h1

/-- What holds of the log and the operations between two writes. -/
structure IssuedOnce (w : DeviceWorld) : Prop where
  stored : ∀ e ∈ w.log, ∀ key r, Issues key r e →
    ∃ o ∈ w.db.device_bound_operations, o.operationKey = key
  written : ∀ e ∈ w.log, ∀ key r, Issues key r e →
    ∃ o ∈ e.after.device_bound_operations, o.operationKey = key ∧ o.response_json = .lease r
  once : w.log.Pairwise Apart
  issued : ∀ o ∈ w.db.device_bound_operations, ∀ r, o.response_json = .lease r →
    ∃ e ∈ w.log, Issues o.operationKey r e
  recovered : ∀ e ∈ w.log, ∀ key r, Recovers key r e → ∃ e' ∈ w.log, Issues key r e'
  harmless : ∀ e ∈ w.log, ∀ p, e.write = .recover p → e.after = { e.before with
    device_bound_challenges := e.after.device_bound_challenges }
  leases : ∀ l ∈ w.db.device_bound_leases,
    ∃ o ∈ w.db.device_bound_operations, o.invocation_id = l.invocation_id

/-- A write keeps the law when it keeps every operation, when each stored lease
is old or its own, when it issues only for a new key, and when it recovers only
what is stored. -/
theorem IssuedOnce.cons {w : DeviceWorld} (h : IssuedOnce w) {now : Int} {minted : List String}
    {write : DeviceWrite} {result : DeviceResult} {db' : Db}
    (hkept : ∀ o ∈ w.db.device_bound_operations,
      ∃ o' ∈ db'.device_bound_operations, o'.operationKey = o.operationKey)
    (hissued : ∀ o' ∈ db'.device_bound_operations, ∀ r, o'.response_json = .lease r →
      Issues o'.operationKey r ⟨write, result, w.db, db'⟩ ∨ ∃ o ∈ w.db.device_bound_operations,
        o.operationKey = o'.operationKey ∧ o.response_json = .lease r)
    (honce : ∀ key r, Issues key r ⟨write, result, w.db, db'⟩ →
      (∀ o ∈ w.db.device_bound_operations, o.operationKey ≠ key) ∧
        ∃ o' ∈ db'.device_bound_operations, o'.operationKey = key ∧ o'.response_json = .lease r)
    (hrecovered : ∀ key r, Recovers key r ⟨write, result, w.db, db'⟩ → ∃ o ∈ w.db.device_bound_operations,
      o.operationKey = key ∧ o.response_json = .lease r)
    (hharmless : ∀ p, write = .recover p → db' = { w.db with
      device_bound_challenges := db'.device_bound_challenges })
    (hleases : ∀ l ∈ db'.device_bound_leases,
      ∃ o ∈ db'.device_bound_operations, o.invocation_id = l.invocation_id) :
    IssuedOnce ⟨now, minted, db', ⟨write, result, w.db, db'⟩ :: w.log⟩ where
  stored := by
    intro e' he' key r hi
    rcases List.mem_cons.mp he' with rfl | he'
    · obtain ⟨o', ho', hk, -⟩ := (honce key r hi).2
      exact ⟨o', ho', hk⟩
    · obtain ⟨o, ho, hk⟩ := h.stored e' he' key r hi
      obtain ⟨o', ho', hk'⟩ := hkept o ho
      exact ⟨o', ho', hk'.trans hk⟩
  written := by
    intro e' he' key r hi
    rcases List.mem_cons.mp he' with rfl | he'
    · exact (honce key r hi).2
    · exact h.written e' he' key r hi
  once := by
    refine List.pairwise_cons.mpr ⟨fun e' he' key r r' hi hi' => ?_, h.once⟩
    obtain ⟨o, ho, hk⟩ := h.stored e' he' key r' hi'
    exact (honce key r hi).1 o ho hk
  issued := by
    intro o' ho' r hr
    rcases hissued o' ho' r hr with hi | ⟨o, ho, hk, hr'⟩
    · exact ⟨_, List.mem_cons_self, hi⟩
    · obtain ⟨e', he', hi⟩ := h.issued o ho r hr'
      exact ⟨e', List.mem_cons_of_mem _ he', hk ▸ hi⟩
  recovered := by
    intro e' he' key r hrec
    rcases List.mem_cons.mp he' with rfl | he'
    · obtain ⟨o, ho, hk, hr⟩ := hrecovered key r hrec
      obtain ⟨e'', he'', hi⟩ := h.issued o ho r hr
      exact ⟨e'', List.mem_cons_of_mem _ he'', hk ▸ hi⟩
    · obtain ⟨e'', he'', hi⟩ := h.recovered e' he' key r hrec
      exact ⟨e'', List.mem_cons_of_mem _ he'', hi⟩
  harmless := by
    intro e' he' p hp
    rcases List.mem_cons.mp he' with rfl | he'
    · exact hharmless p hp
    · exact h.harmless e' he' p hp
  leases := hleases

/-- A write that keeps the operations and the leases as they are, and that
issues and recovers nothing new. -/
theorem IssuedOnce.quiet {w : DeviceWorld} (h : IssuedOnce w) {now : Int} {minted : List String}
    {write : DeviceWrite} {result : DeviceResult} {db' : Db}
    (hops : db'.device_bound_operations = w.db.device_bound_operations)
    (hissues : ∀ key r, ¬ Issues key r ⟨write, result, w.db, db'⟩)
    (hrecovered : ∀ key r, Recovers key r ⟨write, result, w.db, db'⟩ → ∃ o ∈ w.db.device_bound_operations,
      o.operationKey = key ∧ o.response_json = .lease r)
    (hharmless : ∀ p, write = .recover p → db' = { w.db with
      device_bound_challenges := db'.device_bound_challenges })
    (hleases : db'.device_bound_leases = w.db.device_bound_leases) :
    IssuedOnce ⟨now, minted, db', ⟨write, result, w.db, db'⟩ :: w.log⟩ := by
  refine h.cons ?_ ?_ (fun key r hi => absurd hi (hissues key r)) hrecovered hharmless ?_
  · intro o ho
    exact ⟨o, hops ▸ ho, rfl⟩
  · intro o' ho' r hr
    exact .inr ⟨o', hops ▸ ho', rfl, hr⟩
  · rw [hleases, hops]
    exact h.leases

/-! ## One write -/

variable {o : Oracle} {w : DeviceWorld}

theorem IssuedOnce.commit (h : IssuedOnce w)
    (hfresh : ∀ op ∈ w.db.device_bound_operations, op.invocation_id ≠ o.id) (p : Candidate) :
    IssuedOnce (World.exec DeviceWrite.apply o (.commit p) w).2 := by
  unfold World.exec
  simp only [DeviceWrite.apply]
  rcases commit_cases { p with invocationId := o.id } o.clock w.db hfresh with
    ⟨e, hc⟩ | ⟨db', hc, heff⟩
  · rw [hc]
    refine h.quiet rfl ?_ ?_ ?_ rfl
    · rintro key r ⟨q, -, -, hr⟩
      cases hr
    · rintro key r ⟨q, hq, -⟩
      cases hq
    · intro q hq
      cases hq
  · rw [hc]
    have hmem : ∀ op, op ∈ db'.device_bound_operations ↔
        op = operationSet (({ p with invocationId := o.id } : Candidate).operation (o.clock 0)) ∨
          op ∈ w.db.device_bound_operations := by
      intro op
      rw [Table.mem_def, heff.operations, List.mem_cons]
      rfl
    refine h.cons ?_ ?_ ?_ ?_ ?_ ?_
    · intro op hop
      exact ⟨op, (hmem op).mpr (.inr hop), rfl⟩
    · intro op hop r hr
      rcases (hmem op).mp hop with rfl | hop
      · refine .inl ⟨p, rfl, rfl, ?_⟩
        obtain rfl := StoredResponse.lease.inj hr
        rfl
      · exact .inr ⟨op, hop, rfl, hr⟩
    · rintro key r ⟨q, hq, rfl, hr⟩
      obtain rfl := DeviceWrite.commit.inj hq
      obtain rfl := DeviceResult.issued.inj hr
      refine ⟨fun op hop hk => heff.operation_fresh op hop ?_, _, (hmem _).mpr (.inl rfl), rfl, rfl⟩
      exact .inl hk.symm
    · rintro key r ⟨q, hq, -⟩
      cases hq
    · intro q hq
      cases hq
    · intro l hl
      rcases heff.lease_cases.mp hl with rfl | hl
      · exact ⟨_, (hmem _).mpr (.inl rfl), rfl⟩
      · obtain ⟨op, hop, hinv⟩ := h.leases l hl
        exact ⟨op, (hmem op).mpr (.inr hop), hinv⟩

theorem IssuedOnce.recover (h : IssuedOnce w) (p : Snapshot) :
    IssuedOnce (World.exec DeviceWrite.apply o (.recover p) w).2 := by
  have hwrites := recovery_writes_challenges { p with invocationId := o.id } o.clock w.db
  refine h.quiet ?_ ?_ ?_ ?_ ?_
  · simp only [DeviceWrite.apply, Prod.map, id]
    rw [hwrites]
  · rintro key r ⟨q, hq, -⟩
    cases hq
  · rintro key r ⟨q, hq, hk, hr⟩
    obtain rfl := DeviceWrite.recover.inj hq
    -- A result is there only when the batch has found the operation with its response.
    rcases hrec : recoverBoundDeviceLease { p with invocationId := o.id } o.clock w.db with
      ⟨_ | response, db'⟩
    · simp only [DeviceWrite.apply, hrec, Prod.map, DeviceResult.ofRecovery] at hr
      cases hr
    · simp only [DeviceWrite.apply, hrec, Prod.map, DeviceResult.ofRecovery,
        DeviceResult.recovered.injEq] at hr
      obtain ⟨-, op, hop, h1, h2, h3, -, hresponse⟩ := recovery_response hrec
      refine ⟨op, hop, ?_, hr ▸ hresponse⟩
      rw [← hk, Operation.operationKey, h1, h2, h3]
      rfl
  · intro q hq
    simp only [DeviceWrite.apply, Prod.map, id]
    exact hwrites
  · simp only [DeviceWrite.apply, Prod.map, id]
    rw [hwrites]

theorem IssuedOnce.change (h : IssuedOnce w)
    (hfresh : ∀ op ∈ w.db.device_bound_operations, op.invocation_id ≠ o.id)
    (ho : World.Admits o w) (c : DeviceChange) :
    IssuedOnce (World.exec DeviceWrite.apply o (.change c) w).2 := by
  have heff : ChangeEffect o.id o.finish w.db (transact (c.batch o.id) o.clock w.db).2 :=
    transact_rel (fun db => .refl o.id o.finish db) fun ns db' hr =>
      change_effect c hfresh ho.finish hr
  obtain ⟨new, aged, hrows, hnew, haged⟩ := heff.operations
  have hages : ∀ {op op' : Operation}, OperationAges op op' → op'.operationKey = op.operationKey ∧
      op'.invocation_id = op.invocation_id := by
    intro op op' ha
    have hsame := ha.same
    constructor
    · rw [← hsame]
      rfl
    · rw [← hsame]
  have hkept : ∀ op ∈ w.db.device_bound_operations,
      ∃ op' ∈ (transact (c.batch o.id) o.clock w.db).2.device_bound_operations,
        OperationAges op op' := by
    intro op hop
    obtain ⟨op', hop', ha⟩ := forall₂_left haged hop
    refine ⟨op', ?_, ha⟩
    rw [Table.mem_def, hrows]
    exact List.mem_append_right _ hop'
  refine h.cons ?_ ?_ ?_ ?_ (fun p hp => nomatch hp) ?_
  · intro op hop
    obtain ⟨op', hop', ha⟩ := hkept op hop
    exact ⟨op', hop', (hages ha).1⟩
  · intro op' hop' r hr
    simp only [DeviceWrite.apply] at hop'
    rw [Table.mem_def, hrows] at hop'
    rcases List.mem_append.mp hop' with hop' | hop'
    · exact absurd hr ((hnew op' hop').2 r)
    · obtain ⟨op, hop, ha⟩ := forall₂_right haged hop'
      refine .inr ⟨op, hop, (hages ha).1.symm, ?_⟩
      rcases ha.response with he | he
      · exact he ▸ hr
      · rw [he] at hr
        cases hr
  · rintro key r ⟨q, hq, -⟩
    cases hq
  · rintro key r ⟨q, hq, -⟩
    cases hq
  · intro l hl
    obtain ⟨op, hop, hinv⟩ := h.leases l (heff.leases l hl)
    obtain ⟨op', hop', ha⟩ := hkept op hop
    exact ⟨op', hop', (hages ha).2.trans hinv⟩

theorem issuedOnce_step (h : IssuedOnce w)
    (hfresh : ∀ op ∈ w.db.device_bound_operations, op.invocation_id ≠ o.id)
    (ho : World.Admits o w) (write : DeviceWrite) :
    IssuedOnce (World.exec DeviceWrite.apply o write w).2 := by
  cases write with
  | commit p => exact h.commit hfresh p
  | recover p => exact h.recover p
  | change c => exact h.change hfresh ho c

/-! ## Consumption -/

/-- Every id that a row got at random was drawn. -/
structure IdsDrawn (minted : List String) (db : Db) : Prop where
  operations : ∀ op ∈ db.device_bound_operations, op.invocation_id ∈ minted
  challenges : ∀ c ∈ db.device_bound_challenges, c.id ∈ minted
  attempts : ∀ a ∈ db.device_bound_authorizations, a.handle_hash ∈ minted

/-- What a write does to the rows that are consumed once. The id is the id that
it draws. -/
structure Ages (id : String) (db db' : Db) : Prop where
  operations : ∀ op' ∈ db'.device_bound_operations,
    (∃ op ∈ db.device_bound_operations, op.invocation_id = op'.invocation_id) ∨
      op'.invocation_id = id
  challenges : ∀ c' ∈ db'.device_bound_challenges,
    (∃ c ∈ db.device_bound_challenges, ChallengeAges c c') ∨ c'.id = id
  attempts : ∀ a' ∈ db'.device_bound_authorizations,
    (∃ a ∈ db.device_bound_authorizations, AttemptAges a a') ∨ a'.handle_hash = id

theorem Ages.refl (id : String) (db : Db) : Ages id db db where
  operations := fun op hop => .inl ⟨op, hop, rfl⟩
  challenges := fun c hc => .inl ⟨c, hc, .refl c⟩
  attempts := fun a ha => .inl ⟨a, ha, .refl a⟩

theorem Ages.drawn {id : String} {minted : List String} {db db' : Db} (h : Ages id db db')
    (hd : IdsDrawn minted db) : IdsDrawn (id :: minted) db' where
  operations := by
    intro op' hop'
    rcases h.operations op' hop' with ⟨op, hop, he⟩ | he
    · exact List.mem_cons_of_mem _ (he ▸ hd.operations op hop)
    · exact he ▸ List.mem_cons_self
  challenges := by
    intro c' hc'
    rcases h.challenges c' hc' with ⟨c, hc, ha⟩ | he
    · exact List.mem_cons_of_mem _ (ha.id ▸ hd.challenges c hc)
    · exact he ▸ List.mem_cons_self
  attempts := by
    intro a' ha'
    rcases h.attempts a' ha' with ⟨a, ha, hages⟩ | he
    · exact List.mem_cons_of_mem _ (hages.handle_hash ▸ hd.attempts a ha)
    · exact he ▸ List.mem_cons_self

theorem CommitEffect.ages {p : Candidate} {clock : Nat → Int} {db db' : Db}
    (h : CommitEffect p clock db db') : Ages p.invocationId db db' where
  operations := by
    intro op' hop'
    rw [Table.mem_def, h.operations] at hop'
    rcases List.mem_cons.mp hop' with rfl | hop'
    · exact .inr rfl
    · exact .inl ⟨op', hop', rfl⟩
  challenges := by
    intro c' hc'
    obtain ⟨n, hu⟩ := h.challenges
    exact .inl (forall₂_right (Table.forall₂_of_update hu (fun c _ _ => ChallengeAges.refl c)
      fun c _ _ => challenge_of_trigger) hc')
  attempts := by
    intro a' ha'
    obtain ⟨n, hu⟩ := h.authorizations
    exact .inl (forall₂_right (Table.forall₂_of_update hu (fun a _ _ => AttemptAges.refl a)
      fun a _ _ => attempt_of_trigger) ha')

theorem ChangeEffect.ages {id : String} {finish : Int} {db db' : Db}
    (h : ChangeEffect id finish db db') : Ages id db db' where
  operations := by
    obtain ⟨new, aged, hrows, hnew, haged⟩ := h.operations
    intro op' hop'
    rw [Table.mem_def, hrows] at hop'
    rcases List.mem_append.mp hop' with hop' | hop'
    · exact .inr (hnew op' hop').1
    · obtain ⟨op, hop, ha⟩ := forall₂_right haged hop'
      have hsame := ha.same
      exact .inl ⟨op, hop, by rw [← hsame]⟩
  challenges := by
    intro c' hc'
    rcases h.challenges c' hc' with hc | ⟨hid, -⟩
    · exact .inl ⟨c', hc, .refl c'⟩
    · exact .inr hid
  attempts := h.attempts

theorem ages_step (hd : IdsDrawn w.minted w.db) (ho : World.Admits o w) (write : DeviceWrite) :
    Ages o.id w.db (DeviceWrite.apply o write w.db).2 := by
  have hfresh : ∀ op ∈ w.db.device_bound_operations, op.invocation_id ≠ o.id :=
    fun op hop he => ho.fresh (he ▸ hd.operations op hop)
  refine apply_rel (Ages.refl o.id) hfresh ?_ ?_ ?_ write
  · intro p db' hid heff
    exact hid ▸ heff.ages
  · intro p
    have hages := Ages.refl o.id w.db
    refine ⟨?_, fun c' hc' => .inl (recovery_ages p o.clock w.db hc'), ?_⟩
    · rw [recovery_writes_challenges]
      exact hages.operations
    · rw [recovery_writes_challenges]
      exact hages.attempts
  · intro c ns db' hr
    exact (change_effect c hfresh ho.finish hr).ages

/-- From one database to a later one: a consumed row keeps what it was consumed
by for as long as it is there. -/
structure ConsumedOnce (db db' : Db) : Prop where
  challenges : ∀ c ∈ db.device_bound_challenges, ∀ i, c.consumed_invocation_id = some i →
    ∀ c' ∈ db'.device_bound_challenges, c'.id = c.id → c'.consumed_invocation_id = some i
  attempts : ∀ a ∈ db.device_bound_authorizations, a.status = .consumed →
    ∀ a' ∈ db'.device_bound_authorizations, a'.handle_hash = a.handle_hash →
      a'.status = .consumed ∧ a'.consumptionOf = a.consumptionOf

theorem ConsumedOnce.refl (db : Db) : ConsumedOnce db db where
  challenges := by
    intro c hc i hi c' hc' hid
    obtain rfl : c' = c := Table.unique hc' hc (.inl hid)
    exact hi
  attempts := by
    intro a ha hs a' ha' hid
    obtain rfl : a' = a := Table.unique ha' ha hid
    exact ⟨hs, rfl⟩

/-- A step keeps it: a row with a new id is none of the old rows. -/
theorem ConsumedOnce.step {id : String} {minted : List String} {db db₁ db₂ : Db}
    (h : ConsumedOnce db db₁) (hd : IdsDrawn minted db) (hid : id ∉ minted)
    (hages : Ages id db₁ db₂) : ConsumedOnce db db₂ where
  challenges := by
    intro c hc i hi c' hc' hcc
    rcases hages.challenges c' hc' with ⟨c₁, hc₁, ha⟩ | hnew
    · have h1 := h.challenges c hc i hi c₁ hc₁ (ha.id.symm.trans hcc)
      rw [ha.consumed (by rw [h1]; exact Option.some_ne_none i)]
      exact h1
    · exact absurd (hnew ▸ hcc ▸ hd.challenges c hc) hid
  attempts := by
    intro a ha hs a' ha' haa
    rcases hages.attempts a' ha' with ⟨a₁, ha₁, hag⟩ | hnew
    · obtain ⟨h1, h2⟩ := h.attempts a ha hs a₁ ha₁ (hag.handle_hash.symm.trans haa)
      obtain ⟨h3, h4⟩ := hag.consumed h1
      exact ⟨h3, h4.trans h2⟩
    · exact absurd (hnew ▸ haa ▸ hd.attempts a ha) hid

/-! ## What a run returns -/

/-- The log has a write that answered this response to the operation. -/
def Responded (key : OperationKey) (r : LeaseResponse) (w : DeviceWorld) : Prop :=
  ∃ e ∈ w.log, Issues key r e ∨ Recovers key r e

/-- Others only add to the log. -/
def LogGrows (w w' : DeviceWorld) : Prop := w.log <:+ w'.log

theorem LogGrows.responded {key : OperationKey} {r : LeaseResponse} {w w' : DeviceWorld}
    (h : LogGrows w w') (hr : Responded key r w) : Responded key r w' := by
  obtain ⟨e, he, hre⟩ := hr
  exact ⟨e, h.mem he, hre⟩

/-- The environment of a run of the device system. -/
abbrev deviceEnv : Prog.Env DeviceWorld DeviceWrite DeviceResult Oracle :=
  (deviceSystem DeviceRun).env LogGrows

/-- The operation of an issue or a recovery. -/
def DeviceWrite.operationKey : DeviceWrite → Option OperationKey
  | .commit p => some p.operationKey
  | .recover p => some p.operationKey
  | .change _ => none

/-- A response that a run reads from an answer is in the log. -/
theorem respond_ends {key : OperationKey} (write : DeviceWrite) (hkey : write.operationKey = some key)
    (w : DeviceWorld) : Prog.Ends deviceEnv (fun _ _ => True)
      (fun r w => Responded key r w) (respond write) w := by
  refine Prog.Ends.bind (Q := fun answer w => ∀ r, answer = some (.issued r) ∨
      answer = some (.recovered r) → Responded key r w) (.lift (.request ?_ ?_ ?_)) ?_
  · exact fun _ _ => ⟨⟩
  · rintro w' w'' - - r (h | h) <;> cases h
  · intro w' w'' o _ ho hgrows r hr
    refine hgrows.responded ⟨_, List.mem_cons_self, ?_⟩
    cases write with
    | change c => cases hkey
    | commit p =>
      refine .inl ⟨p, rfl, Option.some.inj hkey, ?_⟩
      rcases hr with hr | hr
      · exact Option.some.inj hr
      · have hno := Option.some.inj hr
        simp only [System.env, World.system, World.exec, DeviceWrite.apply, Prod.map,
          DeviceResult.ofCommit] at hno
        split at hno <;> cases hno
    | recover p =>
      refine .inr ⟨p, rfl, Option.some.inj hkey, ?_⟩
      rcases hr with hr | hr
      · have hno := Option.some.inj hr
        simp only [System.env, World.system, World.exec, DeviceWrite.apply, Prod.map,
          DeviceResult.ofRecovery] at hno
        split at hno <;> cases hno
      · exact Option.some.inj hr
  · intro answer w' hq
    split
    · exact .pure fun w'' hg => hq w'' hg _ (.inl rfl)
    · exact .pure fun w'' hg => hq w'' hg _ (.inr rfl)
    · exact .throw

/-- A run that has proved its request holds the key that the request names. -/
theorem prove_ends (k : IssueEnv) (request : BoundRequest) (w : DeviceWorld) :
    Prog.Ends deviceEnv (fun _ _ => True)
      (fun v _ => v.subject.key_id = request.proof.key_id) (prove k request) w := by
  refine (Prog.Ends.trivial _ w).bind fun subject w' _ => ?_
  refine (Prog.Ends.trivial _ w').bind fun found w'' _ => ?_
  obtain ⟨found, now⟩ := found
  cases found with
  | none => exact .throw
  | some challenge =>
    dsimp only
    split
    · exact .throw
    rename_i hfits
    split
    · exact .throw
    split
    · exact .throw
    obtain ⟨-, hkey, hproof, -⟩ := not_not.mp hfits
    exact .pure fun _ _ => hkey.symm.trans hproof

theorem currentSubject_ends (v : Verified) (operation : Option Operation) (w : DeviceWorld) :
    Prog.Ends deviceEnv (fun _ _ => True)
      (fun v' _ => v'.subject.key_id = v.subject.key_id) (currentSubject v operation) w := by
  unfold currentSubject
  split
  swap
  · exact .pure fun _ _ => rfl
  refine Prog.Ends.bind (Q := fun current _ => ∀ subject, current = some subject →
    subject.key_id = v.subject.key_id) (.lift (.query ?_)) ?_
  · intro w' w'' _ _ subject hs
    obtain ⟨a, ha, rfl⟩ := Option.map_eq_some_iff.mp hs
    exact (Table.find?_some ha).2.2.1
  · intro current w' hq
    cases current with
    | none => exact .throw
    | some subject => exact .pure fun w'' hg => hq w'' hg subject rfl

/-- Every response that a run returns is in the log, under the operation of
its request. -/
theorem issueBoundLease_ends (k : IssueEnv) (request : BoundRequest) (ids : IssueIds)
    (w : DeviceWorld) : Prog.Ends deviceEnv (fun _ _ => True)
      (fun r w => Responded request.operationKey r w) (issueBoundLease k request ids) w := by
  refine (prove_ends k request w).bind fun v w hv => ?_
  refine (Prog.Ends.trivial _ w).bind fun found w' _ => ?_
  obtain ⟨operation, now⟩ := found
  refine (Prog.Ends.trivial _ w').bind fun _ w _ => ?_
  refine (currentSubject_ends v operation w).bind fun v' w hv' => ?_
  refine (Prog.Ends.trivial _ w).bind fun a w _ => ?_
  have hkey : (v'.snapshot request a ids).operationKey = request.operationKey := by
    have h1 := hv' _ List.suffix_rfl
    have h2 := hv _ List.suffix_rfl
    simp only [Snapshot.operationKey, Verified.snapshot, BoundRequest.operationKey, h1, h2]
  cases operation with
  | some op => exact respond_ends (.recover _) (congrArg some hkey) w
  | none =>
    refine (Prog.Ends.trivial _ w).bind fun _ w _ => ?_
    split
    · exact .throw
    · exact respond_ends (.commit _) (congrArg some hkey) w

/-- What the outcome of a program says of the log. -/
def Accounted (outcome : Outcome) (w : DeviceWorld) : Prop :=
  ∀ request r, outcome = some (request, .ok r) → Responded request.operationKey r w

theorem run_safe {p : Prog DeviceWorld DeviceWrite DeviceResult Outcome} (hp : DeviceRun p)
    (w : DeviceWorld) : p.Safe deviceEnv (fun _ _ => True) Accounted w := by
  cases hp with
  | issue k request ids =>
    refine Prog.Safe.bind (issueBoundLease_ends k request ids w) fun r w' hr => ?_
    intro w'' hg request' r' ho
    obtain ⟨rfl, rfl⟩ := Prod.mk.inj (Option.some.inj ho)
    exact hr w'' hg r' rfl
  | change c =>
    refine Prog.Safe.bind (Prog.Safe.trivial _ w) fun r w' _ => ?_
    intro w'' _ request' r' ho
    cases ho

theorem device_keeps : (deviceSystem DeviceRun).Keeps LogGrows (fun _ _ => True) fun _ => True where
  refl := fun _ _ => List.suffix_rfl
  trans := fun h h' => h.trans h'
  inv := fun _ _ _ _ _ _ => ⟨⟩
  guarantee := fun _ _ _ _ _ _ => List.suffix_cons _ _

/-! ## The runs -/

/-- A database before the first enrollment, with an empty log. -/
structure BeforeEnrollment (w : DeviceWorld) : Prop extends BeforeDevices w.db where
  challenges : w.db.device_bound_challenges = .empty
  attempts : w.db.device_bound_authorizations = .empty
  log : w.log = []

variable {c c' : Config DeviceWorld DeviceWrite DeviceResult Outcome}

theorem BeforeEnrollment.issuedOnce (h : BeforeEnrollment w) : IssuedOnce w where
  stored := by simp [h.log]
  written := by simp [h.log]
  once := by simp [h.log]
  issued := by simp [h.operations]
  recovered := by simp [h.log]
  harmless := by simp [h.log]
  leases := by simp [h.leases]

theorem BeforeEnrollment.idsDrawn (h : BeforeEnrollment w) : IdsDrawn w.minted w.db where
  operations := by simp [h.operations]
  challenges := by simp [h.challenges]
  attempts := by simp [h.attempts]

theorem issuedOnce_reach (h0 : BeforeEnrollment c.state) (h : (deviceSystem DeviceRun).Reach c c') :
    IssuedOnce c'.state ∧ IdsDrawn c'.state.minted c'.state.db :=
  @System.reach_state _ _ _ _ _ _ _ _ (fun w => IssuedOnce w ∧ IdsDrawn w.minted w.db)
    (fun o write w (ho : World.Admits o w) ⟨h1, h2⟩ => ⟨issuedOnce_step h1
        (fun op hop he => ho.fresh (he ▸ h2.operations op hop)) ho write,
      (ages_step h2 ho write).drawn h2⟩) h ⟨h0.issuedOnce, h0.idsDrawn⟩

theorem consumedOnce_reach (hd : IdsDrawn c.state.minted c.state.db)
    (h : (deviceSystem DeviceRun).Reach c c') : ConsumedOnce c.state.db c'.state.db := by
  have hall := @System.reach_state _ _ _ _ _ _ _ _
    (fun w => IdsDrawn w.minted w.db ∧ (∀ id ∈ c.state.minted, id ∈ w.minted) ∧
      ConsumedOnce c.state.db w.db)
    (fun o write w (ho : World.Admits o w) ⟨h1, h2, h3⟩ => by
      have hages := ages_step h1 ho write
      refine ⟨hages.drawn h1, fun id hid => List.mem_cons_of_mem _ (h2 id hid), ?_⟩
      exact h3.step hd (fun hid => ho.fresh (h2 _ hid)) hages)
    h ⟨hd, fun _ h => h, .refl _⟩
  exact hall.2.2

/-- What a state of a run says of exactly-once issue: one operation row and one
lease for each operation, one issue, one response for all runs of an operation
that succeed, and recoveries that write challenges only. -/
structure ExactlyOnce (c : Config DeviceWorld DeviceWrite DeviceResult Outcome) : Prop where
  operation : ∀ o ∈ c.state.db.device_bound_operations, ∀ o' ∈ c.state.db.device_bound_operations,
    o.operationKey = o'.operationKey → o = o'
  lease : ∀ l ∈ c.state.db.device_bound_leases, ∃ o ∈ c.state.db.device_bound_operations,
    o.invocation_id = l.invocation_id ∧ ∀ l' ∈ c.state.db.device_bound_leases,
      ∀ o' ∈ c.state.db.device_bound_operations, o'.invocation_id = l'.invocation_id →
        o'.operationKey = o.operationKey → l' = l
  issue : c.state.log.Pairwise Apart
  response : ∀ request r, .done (some (request, .ok r)) ∈ c.threads →
    (∃ e ∈ c.state.log, Issues request.operationKey r e ∧ ∃ o ∈ e.after.device_bound_operations,
      o.operationKey = request.operationKey ∧ o.response_json = .lease r) ∧
    ∀ request' r', .done (some (request', .ok r')) ∈ c.threads →
      request'.operationKey = request.operationKey → r' = r
  stored : ∀ request r, .done (some (request, .ok r)) ∈ c.threads →
    ∀ o ∈ c.state.db.device_bound_operations, o.operationKey = request.operationKey →
      ∀ r', o.response_json = .lease r' → r' = r
  recovery : ∀ e ∈ c.state.log, ∀ p, e.write = .recover p → e.after = { e.before with
    device_bound_challenges := e.after.device_bound_challenges }

/-- Two issues of one operation are one issue. -/
theorem IssuedOnce.same (h : IssuedOnce w) {key : OperationKey} {r r' : LeaseResponse}
    {e e' : DeviceEntry} (he : e ∈ w.log) (he' : e' ∈ w.log) (hi : Issues key r e)
    (hi' : Issues key r' e') : r' = r := by
  by_cases hee : e = e'
  · subst hee
    obtain ⟨p, -, -, h1⟩ := hi
    obtain ⟨q, -, -, h2⟩ := hi'
    exact DeviceResult.issued.inj (h2.symm.trans h1)
  · exact absurd hi' (h.once.forall he he' hee key r r' hi)

/-- A response in the log is the response of the issue. -/
theorem IssuedOnce.response (h : IssuedOnce w) {key : OperationKey} {r : LeaseResponse}
    (hr : Responded key r w) : ∃ e ∈ w.log, Issues key r e := by
  obtain ⟨e, he, hi | hrec⟩ := hr
  · exact ⟨e, he, hi⟩
  · exact h.recovered e he key r hrec

/-- In every state of a run each operation has been issued at most once, and
every program that has returned a response has returned the one that its
operation stores. A challenge that was consumed and an approval that was
consumed stay so in every later state. -/
theorem each_operation_is_issued_once {c'' : Config DeviceWorld DeviceWrite DeviceResult Outcome}
    {w : DeviceWorld} (h0 : BeforeEnrollment w) (h : (deviceSystem DeviceRun).Reach ⟨w, []⟩ c')
    (h' : (deviceSystem DeviceRun).Reach c' c'') :
    ExactlyOnce c' ∧ ConsumedOnce c'.state.db c''.state.db := by
  obtain ⟨hi, hd⟩ := issuedOnce_reach h0 h
  have hsafe := System.reach_safe device_keeps (fun p hp w _ => run_safe hp w) ⟨⟩ h
  have hlogged : ∀ request r, .done (some (request, .ok r)) ∈ c'.threads →
      ∃ e ∈ c'.state.log, Issues request.operationKey r e := fun request r hdone =>
    hi.response (hsafe.value device_keeps hdone request r rfl)
  refine ⟨{
    operation := fun o ho o' ho' hk => Table.unique ho ho' (.inl hk)
    lease := fun l hl => ?_
    issue := hi.once
    response := fun request r hdone => ⟨?_, fun request' r' hdone' hk => ?_⟩
    stored := fun request r hdone o ho hk r' hr => ?_
    recovery := hi.harmless }, consumedOnce_reach hd h'⟩
  · obtain ⟨o, ho, hinv⟩ := hi.leases l hl
    refine ⟨o, ho, hinv, fun l' hl' o' ho' hinv' hk => ?_⟩
    obtain rfl : o' = o := Table.unique ho' ho (.inl hk)
    exact Table.unique hl' hl (.inr (hinv'.symm.trans hinv))
  · obtain ⟨e, he, hie⟩ := hlogged request r hdone
    exact ⟨e, he, hie, hi.written e he _ r hie⟩
  · obtain ⟨e, he, hie⟩ := hlogged request r hdone
    obtain ⟨e', he', hie'⟩ := hlogged request' r' hdone'
    exact hi.same he he' hie (hk ▸ hie')
  · obtain ⟨e, he, hie⟩ := hlogged request r hdone
    obtain ⟨e', he', hie'⟩ := hi.issued o ho r' hr
    exact hi.same he he' hie (hk ▸ hie')

/-! ## A run of one enrollment -/

/-- A world with one entitlement and no device. -/
def emptyWorld : DeviceWorld := ⟨0, [], { exampleDb with
  device_bound_challenges := .empty
  device_bound_authorizations := .empty }, []⟩

def exampleEnrollment : AuthorizationRequest where
  client_id := "app"
  project := "p"
  requested_feature := "f"
  key_id := "k"
  public_key_spki := "s"
  device_label := "laptop"
  redirect_uri := "r"
  state := "st"
  code_challenge := "x"

def exampleApproval : Approval where
  handleHash := "h"
  revision := 0
  customerId := "alice"
  customerRevision := 0
  project := "p"
  feature := "f"
  fingerprint := "l"
  entitlementRevision := 0
  codeHash := "c"
  codeExpiresAt := 61
  ciphertext := "sealed"

def enrollmentRequest : BoundRequest where
  semantic := exampleRequest.semantic
  proof := ⟨"k", "ch", "n", 63, "sig"⟩

/-- A retry of the request with a new challenge. -/
def exampleRetry : BoundRequest where
  semantic := exampleRequest.semantic
  proof := ⟨"k", "ch2", "n2", 72, "sig"⟩

/-- The attempt, its approval, its challenge, and two exchanges that overlap:
both read before one of them commits. A retry comes after them. -/
def enrollmentSchedule : List (World.Action Db DeviceWrite DeviceResult Outcome) :=
  List.flatten [
    [.start (changeRun (.authorization exampleEnrollment)), .write 0 1 "h",
      .start (changeRun (.approve exampleApproval)), .write 0 2 "a",
      .start (changeRun (.challenge ⟨.exchange "h", "op", "n"⟩)), .write 0 3 "ch",
      .start (issueRun exampleEnv enrollmentRequest ⟨"d", "b", "le"⟩)],
    List.replicate 7 (.read 0),
    [.start (issueRun exampleEnv enrollmentRequest ⟨"d2", "b2", "le2"⟩)],
    List.replicate 7 (.read 0),
    [.write 1 10 "i", .write 0 11 "j",
      .start (changeRun (.challenge ⟨.exchange "h", "op", "n2"⟩)),
      .write 0 12 "ch2",
      .start (issueRun exampleEnv exampleRetry ⟨"d3", "b3", "le3"⟩)],
    List.replicate 8 (.read 0),
    [.write 0 13 "m"]]

def enrollmentEnd : Config DeviceWorld DeviceWrite DeviceResult Outcome :=
  (World.play DeviceWrite.apply ⟨emptyWorld, []⟩ enrollmentSchedule).get (by decide)

theorem enrollmentSchedule_starts : World.Starts DeviceRun enrollmentSchedule :=
  ⟨.change _, .change _, .change _, .issue _ _ _, .issue _ _ _, .change _, .issue _ _ _, ⟨⟩⟩

theorem enrollmentEnd_reached :
    (deviceSystem DeviceRun).Reach ⟨emptyWorld, []⟩ enrollmentEnd :=
  World.reach_of_play (Option.some_get _).symm enrollmentSchedule_starts

/-- The response of the one issue. -/
def enrollmentResponse : LeaseResponse :=
  ⟨"device_activated", "q", "d", "b", 1, ⟨"p", "f", "l"⟩, "t", 43203, 86403, 86523⟩

/-- One exchange issues, the exchange that overlaps it fails, and the retry
gets the response of the first. -/
theorem the_retry_gets_the_first_response :
    enrollmentEnd.threads.map Prog.value? = [some (some (exampleRetry, .ok enrollmentResponse)),
      some none, some (some (enrollmentRequest, .error .unknown)),
      some (some (enrollmentRequest, .ok enrollmentResponse)), some none, some none, some none] ∧
    ExactlyOnce enrollmentEnd ∧ ConsumedOnce enrollmentEnd.state.db enrollmentEnd.state.db :=
  ⟨by decide,
    each_operation_is_issued_once ⟨⟨by decide, rfl, rfl, rfl⟩, rfl, rfl, rfl⟩
      enrollmentEnd_reached .refl⟩

end Licensecc
