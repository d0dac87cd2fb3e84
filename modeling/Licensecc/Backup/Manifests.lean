-- The law of backup manifests. No manifest lies and no settled call leaves a dump without
-- one, exactly as long as no put replaces what a manifest covers by other bytes and no
-- cleanup takes a dump for a manifest.
import Licensecc.Backup.Save
import Licensecc.Conc.Machine

open Licensecc.Codec Licensecc.Conc
open Licensecc.Webhook (bytesToHex)

namespace Licensecc.Backup

/-! ## The listing -/

theorem map_toNat_injective {a b : JsText} (h : a.map UInt16.toNat = b.map UInt16.toNat) : a = b :=
  List.map_injective_iff.mpr (fun _ _ => UInt16.toNat_inj.mp) h

theorem keyLe_of_isPrefix {a b : JsText} (h : a <+: b) : KeyLe a b := by
  obtain ⟨t, rfl⟩ := h
  unfold KeyLe
  induction a with
  | nil =>
    apply le_of_not_gt
    simp
  | cons u a ih =>
    simp only [List.cons_append, List.map_cons]
    exact List.cons_le_cons _ ih

/-- A key is listed first among those that begin with it. -/
theorem mem_listKeys_one {b : Bucket} {key : JsText} : key ∈ listKeys b key 1 ↔ key ∈ b := by
  unfold listKeys
  constructor
  · intro h
    have hmem := (List.mem_insertionSort KeyLe).mp (List.mem_of_mem_take h)
    exact (List.mem_filter.mp hmem).1
  · intro h
    have hmem : key ∈ (b.keys.filter (key.isPrefixOf ·)).insertionSort KeyLe := by
      rw [List.mem_insertionSort]
      exact List.mem_filter.mpr ⟨h, by simp⟩
    have hstart : ∀ x ∈ (b.keys.filter (key.isPrefixOf ·)).insertionSort KeyLe, key <+: x := by
      intro x hx
      have := (List.mem_filter.mp ((List.mem_insertionSort KeyLe).mp hx)).2
      simpa using this
    have htotal : Std.Total KeyLe := ⟨fun x y => le_total _ _⟩
    have htrans : IsTrans JsText KeyLe := ⟨fun _ _ _ => le_trans⟩
    have hsorted := List.pairwise_insertionSort KeyLe (b.keys.filter (key.isPrefixOf ·))
    cases hl : (b.keys.filter (key.isPrefixOf ·)).insertionSort KeyLe with
    | nil =>
      rw [hl] at hmem
      cases hmem
    | cons x rest =>
      rw [hl] at hmem hstart hsorted
      rcases List.mem_cons.mp hmem with rfl | hrest
      · simp
      · have hle := (List.pairwise_cons.mp hsorted).1 key hrest
        have hge := keyLe_of_isPrefix (hstart x List.mem_cons_self)
        rw [map_toNat_injective (le_antisymm hge hle)]
        simp

theorem manifestKey_ne (key : JsText) : manifestKey key ≠ key := by
  intro h
  have hlength := congrArg List.length h
  unfold manifestKey at hlength
  rw [List.length_append] at hlength
  have : manifestSuffix.length = 14 := by decide
  omega

/-! ## The law -/

variable (c : Setting)

/-- The manifest has the digest and the size of a dump. -/
def Agrees (m : Manifest) (bytes : Bytes) : Prop :=
  m.content_integrity.digest_hex = bytesToHex (c.sha256 bytes) ∧
    m.content_integrity.size_bytes = bytes.length

instance (m : Manifest) (bytes : Bytes) : Decidable (Agrees c m bytes) :=
  inferInstanceAs (Decidable (_ ∧ _))

/-- Every stored manifest agrees with the dump that is stored under its object key. -/
def Honest (b : Bucket) : Prop :=
  ∀ key m, b.lookup key = some (.manifest m) →
    ∃ bytes, b.lookup m.object_key = some (.dump bytes) ∧ Agrees c m bytes

/-- A dump under the key has its manifest. -/
def Covered (b : Bucket) (objectKey : JsText) : Prop :=
  ∀ bytes, b.lookup objectKey = some (.dump bytes) →
    ∃ m, b.lookup (manifestKey objectKey) = some (.manifest m) ∧ m.object_key = objectKey

/-- The object key of a call that has returned, or has thrown and run its cleanup. -/
def State.settled (s : State) : Option JsText :=
  match s.ended with
  | some (.returned key) => some key
  | some (.cleaned key) => some key
  | _ => none

/-- No manifest lies, and the last call has left no dump without one when it settled. -/
def NeverLies (s : State) : Prop :=
  Honest c s.bucket ∧ ∀ key, s.settled = some key → Covered s.bucket key

/-- A put of a dump agrees with the manifests of its key, a put of a manifest takes no place
that a manifest covers, and no cleanup finds a dump in the place of its manifest. -/
def Consistent (a : Act) (s : State) : Prop :=
  match a, s.phase with
  | .operation true, some (.putDump e body length) =>
    ∀ streamed, stream c body length = some streamed → ∀ key m,
      s.bucket.lookup key = some (.manifest m) → m.object_key = backupObjectKey e →
        Agrees c m streamed.bytes
  | .operation true, some (.putManifest e _) =>
    ∀ key m, s.bucket.lookup key = some (.manifest m) → m.object_key ≠ manifestKey (backupObjectKey e)
  | .operation true, some (.list e) =>
    ∀ bytes, s.bucket.lookup (manifestKey (backupObjectKey e)) ≠ some (.dump bytes)
  | _, _ => True

/-! ## The invariant -/

/-- Every manifest is stored under the key of its dump. -/
def Named (b : Bucket) : Prop :=
  ∀ key m, b.lookup key = some (.manifest m) → key = manifestKey m.object_key

/-- What the bucket has when a call comes to its next operation. -/
def Phase.Ready (b : Bucket) : Phase → Prop
  | putDump .. => True
  | putManifest e m =>
    m.object_key = backupObjectKey e ∧
      ∃ bytes, b.lookup (backupObjectKey e) = some (.dump bytes) ∧ Agrees c m bytes
  | list e => ∃ bytes, b.lookup (backupObjectKey e) = some (.dump bytes)
  | delete e => b.lookup (manifestKey (backupObjectKey e)) = none

structure Inv (s : State) : Prop where
  named : Named s.bucket
  never_lies : NeverLies c s
  ready : ∀ phase, s.phase = some phase → phase.Ready c s.bucket ∧ s.ended = none

variable {c} {s : State} {b : Bucket} {e : Export} {m : Manifest} {streamed : Streamed}

theorem of_stream {body : Body} {length : Nat} (h : stream c body length = some streamed) :
    streamed.digestHex = bytesToHex (c.sha256 streamed.bytes) ∧
      streamed.sizeBytes = streamed.bytes.length := by
  unfold stream at h
  dsimp only at h
  split at h
  · cases h
  · obtain ⟨counts, -, rfl⟩ := Option.map_eq_some_iff.mp h
    exact ⟨rfl, rfl⟩

theorem of_contentIntegrityFromPut {value : Option R2PutResult} {key : JsText}
    {i : BackupContentIntegrity} (h : contentIntegrityFromPut value key streamed = .ok i) :
    i.digest_hex = streamed.digestHex ∧ i.size_bytes = streamed.sizeBytes := by
  unfold contentIntegrityFromPut at h
  obtain ⟨value, -, h⟩ := bind_eq_ok.mp h
  obtain ⟨-, h⟩ := ensure_bind_eq_ok.mp h
  obtain ⟨size, -, h⟩ := bind_eq_ok.mp h
  obtain ⟨-, h⟩ := ensure_bind_eq_ok.mp h
  obtain ⟨-, h⟩ := ensure_bind_eq_ok.mp h
  obtain ⟨hex, -, h⟩ := bind_eq_ok.mp h
  obtain ⟨-, h⟩ := ensure_bind_eq_ok.mp h
  obtain ⟨etag, -, h⟩ := bind_eq_ok.mp h
  obtain ⟨version, -, h⟩ := bind_eq_ok.mp h
  obtain rfl := Except.ok.inj h
  exact ⟨rfl, rfl⟩

/-- The manifest of a call is that of its stream. -/
theorem of_manifestOf (h : manifestOf e streamed = .ok m) :
    m.object_key = backupObjectKey e ∧ m.content_integrity.digest_hex = streamed.digestHex ∧
      m.content_integrity.size_bytes = streamed.sizeBytes := by
  unfold manifestOf at h
  obtain ⟨integrity, hintegrity, h⟩ := bind_eq_ok.mp h
  obtain ⟨-, h⟩ := ensure_bind_eq_ok.mp h
  obtain ⟨uploaded, -, h⟩ := bind_eq_ok.mp h
  obtain ⟨-, h⟩ := ensure_bind_eq_ok.mp h
  obtain rfl := Except.ok.inj h
  exact ⟨rfl, of_contentIntegrityFromPut hintegrity⟩

theorem agrees_of_stream {body : Body} {length : Nat} (h : stream c body length = some streamed)
    (hm : manifestOf e streamed = .ok m) : Agrees c m streamed.bytes := by
  obtain ⟨hdigest, hsize⟩ := of_stream h
  obtain ⟨-, hm_digest, hm_size⟩ := of_manifestOf hm
  exact ⟨hm_digest.trans hdigest, hm_size.trans hsize⟩

/-! ## The operations on the bucket -/

/-- A manifest that a put has left was there before. -/
theorem lookup_manifest_insert_dump {key : JsText} {bytes : Bytes} {k : JsText}
    (h : (b.insert k (.dump bytes)).lookup key = some (.manifest m)) :
    key ≠ k ∧ b.lookup key = some (.manifest m) := by
  by_cases hk : key = k
  · subst hk
    rw [AList.lookup_insert] at h
    cases h
  · rw [AList.lookup_insert_ne hk] at h
    exact ⟨hk, h⟩

/-- After the put of a dump the manifests are honest exactly when those of its key agree with
it. -/
theorem honest_insert_dump {bytes : Bytes} {k : JsText} (hnamed : Named b) (hb : Honest c b) :
    Honest c (b.insert k (.dump bytes)) ↔
      ∀ key m, b.lookup key = some (.manifest m) → m.object_key = k → Agrees c m bytes := by
  constructor
  · intro h key m hm hk
    have hne : key ≠ k := by
      rw [hnamed key m hm, hk]
      exact manifestKey_ne k
    obtain ⟨bytes', hdump, hagrees⟩ := h key m (by rw [AList.lookup_insert_ne hne]; exact hm)
    rw [hk, AList.lookup_insert] at hdump
    cases hdump
    exact hagrees
  · intro h key m hm
    obtain ⟨-, hold⟩ := lookup_manifest_insert_dump hm
    by_cases hk : m.object_key = k
    · refine ⟨bytes, ?_, h key m hold hk⟩
      rw [hk]
      exact AList.lookup_insert b
    · obtain ⟨bytes', hdump, hagrees⟩ := hb key m hold
      exact ⟨bytes', by rw [AList.lookup_insert_ne hk]; exact hdump, hagrees⟩

/-- After the put of a manifest the manifests are honest exactly when none covered its
place. -/
theorem honest_insert_manifest {bytes : Bytes} (hnamed : Named b) (hb : Honest c b)
    (hdump : b.lookup m.object_key = some (.dump bytes)) (hagrees : Agrees c m bytes) :
    Honest c (b.insert (manifestKey m.object_key) (.manifest m)) ↔
      ∀ key m', b.lookup key = some (.manifest m') → m'.object_key ≠ manifestKey m.object_key := by
  constructor
  · intro h key m' hm' hk
    have hne : key ≠ manifestKey m.object_key := by
      rw [hnamed key m' hm', hk]
      exact manifestKey_ne _
    obtain ⟨bytes', hlookup, -⟩ := h key m' (by rw [AList.lookup_insert_ne hne]; exact hm')
    rw [hk, AList.lookup_insert] at hlookup
    cases hlookup
  · intro h key m' hm'
    by_cases hk : key = manifestKey m.object_key
    · subst hk
      rw [AList.lookup_insert] at hm'
      cases hm'
      exact ⟨bytes, by rw [AList.lookup_insert_ne (manifestKey_ne _).symm]; exact hdump, hagrees⟩
    · rw [AList.lookup_insert_ne hk] at hm'
      obtain ⟨bytes', hlookup, hagrees'⟩ := hb key m' hm'
      exact ⟨bytes', by rw [AList.lookup_insert_ne (h key m' hm')]; exact hlookup, hagrees'⟩

/-- The delete of a dump without a manifest leaves the others honest. -/
theorem honest_erase {k : JsText} (hnamed : Named b) (hb : Honest c b)
    (hnone : b.lookup (manifestKey k) = none) : Honest c (b.erase k) := by
  intro key m hm
  have hne : key ≠ k := by
    rintro rfl
    rw [AList.lookup_erase] at hm
    cases hm
  rw [AList.lookup_erase_ne hne] at hm
  obtain ⟨bytes, hdump, hagrees⟩ := hb key m hm
  refine ⟨bytes, ?_, hagrees⟩
  rw [AList.lookup_erase_ne]
  · exact hdump
  · intro hk
    rw [hnamed key m hm, hk, hnone] at hm
    cases hm

theorem named_insert_dump {bytes : Bytes} {k : JsText} (h : Named b) :
    Named (b.insert k (.dump bytes)) :=
  fun key m hm => h key m (lookup_manifest_insert_dump hm).2

theorem named_insert_manifest (h : Named b) :
    Named (b.insert (manifestKey m.object_key) (.manifest m)) := by
  intro key m' hm'
  by_cases hk : key = manifestKey m.object_key
  · subst hk
    rw [AList.lookup_insert] at hm'
    cases hm'
    rfl
  · rw [AList.lookup_insert_ne hk] at hm'
    exact h key m' hm'

theorem named_erase {k : JsText} (h : Named b) : Named (b.erase k) := by
  intro key m hm
  by_cases hk : key = k
  · subst hk
    rw [AList.lookup_erase] at hm
    cases hm
  · rw [AList.lookup_erase_ne hk] at hm
    exact h key m hm

/-! ## Each operation -/

/-- A step that leaves the bucket as it is, and settles no call, keeps the invariant. -/
theorem Inv.rest (h : Inv c s) (ended : Option Ended)
    (hended : ended = none ∨ ended = some .threw) :
    Inv c { s with phase := none, ended } where
  named := h.named
  never_lies := by
    refine ⟨h.never_lies.1, fun key hkey => ?_⟩
    rcases hended with rfl | rfl
    · cases hkey
    · cases hkey
  ready phase hphase := by cases hphase

theorem Inv.moves (h : Inv c s) {phase : Phase} (hready : phase.Ready c s.bucket) :
    Inv c { s with phase := some phase, ended := none } where
  named := h.named
  never_lies := ⟨h.never_lies.1, fun key hkey => by cases hkey⟩
  ready x hx := by
    obtain rfl := Option.some.inj hx
    exact ⟨hready, rfl⟩

theorem settled_none (h : s.ended = none) (key : JsText) : s.settled ≠ some key := by
  unfold State.settled
  rw [h]
  exact fun hkey => nomatch hkey

/-- The put of a dump. -/
theorem putDump_step {body : Body} {length : Nat} (h : Inv c s)
    (hphase : s.phase = some (.putDump e body length)) :
    (Consistent c (.operation true) s ↔ NeverLies c (act c (.operation true) s)) ∧
      (Consistent c (.operation true) s → Inv c (act c (.operation true) s)) := by
  have hended := (h.ready _ hphase).2
  have hact : act c (.operation true) s = operate c true s (.putDump e body length) := by
    unfold act
    rw [hphase]
  have hcond : Consistent c (.operation true) s ↔
      ∀ streamed, stream c body length = some streamed → ∀ key m,
        s.bucket.lookup key = some (.manifest m) → m.object_key = backupObjectKey e →
          Agrees c m streamed.bytes := by
    unfold Consistent
    rw [hphase]
  rw [hact, hcond]
  unfold operate
  simp only [if_true]
  cases hstream : stream c body length with
  | none =>
    have hinv := h.rest (some .threw) (.inr rfl)
    refine ⟨⟨fun _ => hinv.never_lies, fun _ streamed hs => ?_⟩, fun _ => hinv⟩
    cases hs
  | some streamed =>
    dsimp only
    have hiff : (∀ st, some streamed = some st → ∀ key m, s.bucket.lookup key = some (.manifest m) →
        m.object_key = backupObjectKey e → Agrees c m st.bytes) ↔
          Honest c (s.bucket.insert (backupObjectKey e) (.dump streamed.bytes)) := by
      rw [honest_insert_dump h.named h.never_lies.1]
      constructor
      · intro hall
        exact hall streamed rfl
      · rintro hall st ⟨⟩
        exact hall
    rw [hiff]
    -- The dump is stored, and no outcome is.
    refine ⟨⟨fun hhonest => ⟨hhonest, fun key hkey => absurd hkey (settled_none hended key)⟩,
      fun hp => hp.1⟩, ?_⟩
    intro hhonest
    refine ⟨named_insert_dump h.named,
      ⟨hhonest, fun key hkey => absurd hkey (settled_none hended key)⟩, ?_⟩
    intro phase hnext
    refine ⟨?_, hended⟩
    dsimp only at hnext
    cases hm : manifestOf e streamed with
    | ok m =>
      rw [hm] at hnext
      obtain rfl := Option.some.inj hnext
      exact ⟨(of_manifestOf hm).1, streamed.bytes, AList.lookup_insert _, agrees_of_stream hstream hm⟩
    | error error =>
      rw [hm] at hnext
      obtain rfl := Option.some.inj hnext
      exact ⟨streamed.bytes, AList.lookup_insert _⟩

/-- The put of a manifest. -/
theorem putManifest_step (h : Inv c s) (hphase : s.phase = some (.putManifest e m)) :
    (Consistent c (.operation true) s ↔ NeverLies c (act c (.operation true) s)) ∧
      (Consistent c (.operation true) s → Inv c (act c (.operation true) s)) := by
  obtain ⟨⟨hkey, bytes, hdump, hagrees⟩, hended⟩ := h.ready _ hphase
  have hact : act c (.operation true) s = operate c true s (.putManifest e m) := by
    unfold act
    rw [hphase]
  have hcond : Consistent c (.operation true) s ↔ ∀ key m', s.bucket.lookup key = some (.manifest m') →
      m'.object_key ≠ manifestKey (backupObjectKey e) := by
    unfold Consistent
    rw [hphase]
  rw [hact, hcond]
  unfold operate
  simp only [if_true]
  rw [← hkey] at hdump ⊢
  rw [← honest_insert_manifest h.named h.never_lies.1 hdump hagrees]
  have hcovered : Covered (s.bucket.insert (manifestKey m.object_key) (.manifest m)) m.object_key :=
    fun _ _ => ⟨m, AList.lookup_insert _, rfl⟩
  have hnever : Honest c (s.bucket.insert (manifestKey m.object_key) (.manifest m)) →
      NeverLies c { bucket := s.bucket.insert (manifestKey m.object_key) (.manifest m)
                    phase := none, ended := some (.returned m.object_key) } := by
    refine fun hhonest => ⟨hhonest, fun key hsettled => ?_⟩
    obtain rfl := Option.some.inj hsettled
    exact hcovered
  refine ⟨⟨hnever, fun hp => hp.1⟩, fun hhonest => ⟨named_insert_manifest h.named, hnever hhonest, ?_⟩⟩
  intro phase hnext
  cases hnext

/-- The listing of a cleanup. -/
theorem list_step (h : Inv c s) (hphase : s.phase = some (.list e)) :
    (Consistent c (.operation true) s ↔ NeverLies c (act c (.operation true) s)) ∧
      (Consistent c (.operation true) s → Inv c (act c (.operation true) s)) := by
  obtain ⟨⟨bytes, hdump⟩, hended⟩ := h.ready _ hphase
  have hact : act c (.operation true) s = operate c true s (.list e) := by
    unfold act
    rw [hphase]
  have hcond : Consistent c (.operation true) s ↔
      ∀ bytes, s.bucket.lookup (manifestKey (backupObjectKey e)) ≠ some (.dump bytes) := by
    unfold Consistent
    rw [hphase]
  rw [hact, hcond]
  unfold operate
  simp only [if_true, mem_listKeys_one]
  by_cases hlisted : manifestKey (backupObjectKey e) ∈ s.bucket
  · rw [if_pos hlisted]
    have hnever : (∀ bytes, s.bucket.lookup (manifestKey (backupObjectKey e)) ≠ some (.dump bytes)) ↔
        NeverLies c { s with phase := none, ended := some (.cleaned (backupObjectKey e)) } := by
      constructor
      · refine fun hno => ⟨h.never_lies.1, fun key hsettled => ?_⟩
        obtain rfl := Option.some.inj hsettled
        intro _ _
        obtain ⟨x, hx⟩ := Option.isSome_iff_exists.mp (AList.lookup_isSome.mpr hlisted)
        cases x with
        | dump other => exact absurd hx (hno other)
        | manifest m =>
          refine ⟨m, hx, ?_⟩
          exact (List.append_cancel_right (h.named _ m hx)).symm
      · intro hp other hother
        obtain ⟨m, hm, -⟩ := hp.2 _ rfl bytes hdump
        rw [hother] at hm
        cases hm
    refine ⟨hnever, fun hno => ⟨h.named, hnever.mp hno, ?_⟩⟩
    intro phase hnext
    cases hnext
  · rw [if_neg hlisted]
    have hnone := AList.lookup_eq_none.mpr hlisted
    have hinv : Inv c { s with phase := some (.delete e) } := by
      have hmoves : Inv c { s with phase := some (.delete e), ended := none } := h.moves hnone
      rw [← hended] at hmoves
      exact hmoves
    refine ⟨⟨fun _ => hinv.never_lies, fun _ other hother => ?_⟩, fun _ => hinv⟩
    rw [hnone] at hother
    cases hother

/-- The delete of a cleanup. -/
theorem inv_delete (h : Inv c s) (hphase : s.phase = some (.delete e)) :
    Inv c (act c (.operation true) s) := by
  obtain ⟨hnone, -⟩ := h.ready _ hphase
  unfold act
  rw [hphase]
  unfold operate
  simp only [if_true]
  refine ⟨named_erase h.named, ⟨honest_erase h.named h.never_lies.1 hnone, ?_⟩, ?_⟩
  · intro key hsettled
    obtain rfl := Option.some.inj hsettled
    intro bytes hdump
    rw [AList.lookup_erase] at hdump
    cases hdump
  · intro phase hnext
    cases hnext

/-- An operation that fails. -/
theorem inv_failed (h : Inv c s) : Inv c (act c (.operation false) s) := by
  unfold act
  dsimp only
  split
  · rename_i phase hphase
    obtain ⟨hready, hended⟩ := h.ready _ hphase
    cases phase with
    | putDump e body length => exact h.rest (some .threw) (.inr rfl)
    | putManifest e m =>
      obtain ⟨-, bytes, hdump, -⟩ := hready
      have hmoves : Inv c { s with phase := some (.list e), ended := none } :=
        h.moves ⟨bytes, hdump⟩
      rw [← hended] at hmoves
      exact hmoves
    | list e => exact h.rest (some .threw) (.inr rfl)
    | delete e => exact h.rest (some .threw) (.inr rfl)
  · exact h

theorem inv_call (h : Inv c s) (e : Export) : Inv c (act c (.call e) s) := by
  unfold act
  dsimp only
  split
  · exact h.moves trivial
  · rename_i hphase _
    have := h.rest (some .threw) (.inr rfl)
    rw [← hphase] at this
    exact this
  · exact h

/-- What one action does: it keeps the law exactly when it is consistent. -/
theorem act_step (a : Act) (s : State) (h : Inv c s) :
    (Consistent c a s ↔ NeverLies c (act c a s)) ∧ (Consistent c a s → Inv c (act c a s)) := by
  have hkeeps (hinv : Inv c (act c a s)) (hcond : Consistent c a s) :
      (Consistent c a s ↔ NeverLies c (act c a s)) ∧ (Consistent c a s → Inv c (act c a s)) :=
    ⟨⟨fun _ => hinv.never_lies, fun _ => hcond⟩, fun _ => hinv⟩
  cases a with
  | call e => exact hkeeps (inv_call h e) trivial
  | crash => exact hkeeps (h.rest none (.inl rfl)) trivial
  | operation ran =>
    cases ran with
    | false => exact hkeeps (inv_failed h) trivial
    | true =>
      cases hphase : s.phase with
      | none =>
        have hsame : act c (.operation true) s = s := by
          unfold act
          rw [hphase]
        apply hkeeps
        · rw [hsame]
          exact h
        · unfold Consistent
          rw [hphase]
          trivial
      | some phase =>
        cases phase with
        | putDump e body length => exact putDump_step h hphase
        | putManifest e m => exact putManifest_step h hphase
        | list e => exact list_step h hphase
        | delete e =>
          apply hkeeps (inv_delete h hphase)
          unfold Consistent
          rw [hphase]
          trivial

theorem inv_empty : Inv c {} where
  named key m hm := by cases hm
  never_lies := by
    constructor
    · intro key m hm
      cases hm
    · intro key hkey
      cases hkey
  ready phase hphase := by cases hphase

/-- In every state of a run of calls the manifests are honest, and a settled call has left no
dump without one, exactly when every operation is consistent with the stored manifests. -/
theorem manifests_never_lie_iff (as : List Act) :
    Machine.Always (act c) (NeverLies c) {} as ↔ Machine.Meets (act c) (Consistent c) {} as :=
  Machine.always_iff_meets (fun a s hs => (act_step a s hs).1) (fun a s hs => (act_step a s hs).2)
    inv_empty.never_lies inv_empty

/-! ## A retry with other bytes -/

def emptyDump : Bytes := utf8 "CREATE TABLE customers (id);\n".toList

def laterDump : Bytes :=
  utf8 "CREATE TABLE customers (id);\nINSERT INTO customers VALUES (1);\n".toList

/-- SHA-256 and the counts of these two dumps. -/
def exampleSetting : Setting where
  sha256 bytes :=
    if bytes = emptyDump then
      [45, 70, 194, 247, 61, 84, 220, 254, 227, 124, 23, 242, 59, 37, 251, 167, 253, 200,
        93, 168, 175, 22, 179, 209, 28, 224, 129, 188, 193, 179, 57, 85]
    else if bytes = laterDump then
      [177, 143, 43, 42, 17, 47, 140, 134, 248, 153, 103, 204, 52, 164, 51, 96, 56, 189,
        25, 142, 112, 79, 217, 43, 126, 146, 215, 159, 230, 95, 21, 202]
    else []
  inventory chunks :=
    if chunks.flatten = emptyDump then some [(jsText "customers".toList, 0)]
    else if chunks.flatten = laterDump then some [(jsText "customers".toList, 1)]
    else none

def exampleKey : JsText :=
  jsText "d1/db/2026-06-05T01-02-03-004Z/bookmark-1/dump.sql".toList

/-- A call for one export that downloads a dump. -/
def exampleExport (bytes : Bytes) (length : String) : Export where
  config := ⟨jsText "db-id".toList, jsText "db".toList, jsText "d1/db".toList⟩
  started := ⟨jsText "bookmark-1".toList, jsText "2026-06-05T01:02:03.004Z".toList⟩
  filename := jsText "dump.sql".toList
  response := some { status := 200, contentLength := some (jsText length.toList),
                     body := some ⟨[bytes], true⟩ }
  putResult := some { key := exampleKey, size := some bytes.length, etag := some (jsText "e".toList),
                      version := some (jsText "v".toList), uploaded := some 1780621384005 }

def exampleManifest : Manifest where
  database_id := jsText "db-id".toList
  database_name := jsText "db".toList
  bookmark := jsText "bookmark-1".toList
  export_filename := jsText "dump.sql".toList
  object_key := exampleKey
  snapshot_requested_at := jsText "2026-06-05T01:02:03.004Z".toList
  created_at := 1780621384005
  content_integrity :=
    { digest_hex := bytesToHex (exampleSetting.sha256 emptyDump), size_bytes := 29,
      r2_etag := jsText "e".toList, r2_version := jsText "v".toList, r2_size_bytes := 29,
      r2_sha256_hex := none }
  table_counts := [(jsText "customers".toList, 0)]

/-- A manifest that does not agree with the dump of its key. -/
theorem not_neverLies {key : JsText} {bytes : Bytes}
    (hmanifest : s.bucket.lookup key = some (.manifest m))
    (hdump : s.bucket.lookup m.object_key = some (.dump bytes)) (hagrees : ¬ Agrees c m bytes) :
    ¬ NeverLies c s := by
  intro h
  obtain ⟨other, hother, hagree⟩ := h.1 key m hmanifest
  rw [hdump] at hother
  cases hother
  exact hagrees hagree

/-- A retry of an export that has succeeded downloads other bytes, puts them over the dump
and stops: the manifest is that of the first dump. -/
theorem a_retry_makes_a_manifest_lie :
    ¬ NeverLies exampleSetting (Machine.run (act exampleSetting) {}
      [.call (exampleExport emptyDump "29"), .operation true, .operation true,
        .call (exampleExport laterDump "63"), .operation true, .crash]) := by
  apply @not_neverLies _ _ exampleManifest (manifestKey exampleKey) laterDump
  · decide +kernel
  · decide +kernel
  · decide +kernel

end Licensecc.Backup
