-- The law of an apply. In every run it commits the whole import on the catalog
-- that its preview has read, or it changes nothing. A preview commits once, for the
-- actor that it was stored for, and before it expires.
import Licensecc.Catalog.System
import Licensecc.Catalog.Derivation

open Licensecc.Sql Licensecc.Conc

namespace Licensecc.Catalog

abbrev CatalogEntry := Entry Store CatalogWrite CatalogResult

variable {w w' w'' : CatalogWorld} {s s' : Store} {o : Oracle} {d : ImportDraft}
  {call : ImportCall} {effective_at : Int} {actions : List ImportAction} {p q : ImportPreviewRow}

/-! ## What a preview stores -/

/-- The effects of a preview are those of its manifest on a catalog. -/
def Derived (d : ImportDraft) (s : Store) : Prop :=
  ∃ ids, deriveEffects (buildSnapshot d.manifest s) ids d.manifest d.effective_at = .ok d.effects

theorem Derived.of_same (h : Derived d s) (hsame : SameCatalog s s')
    (hg : s'.generation = s.generation) : Derived d s' := by
  have hsnapshot : buildSnapshot d.manifest s' = buildSnapshot d.manifest s := by
    simp only [buildSnapshot, hsame.features, hsame.plans, hsame.plan_features, hsame.policies, hg]
  unfold Derived
  rw [hsnapshot]
  exact h

/-- A manifest that the validator has accepted. -/
def Accepted (m : CatalogManifest) : Prop :=
  ∃ body input, validateCatalogImportInput body = some input ∧
    m = normalizeCatalogImportManifest input

theorem Accepted.keyed {m : CatalogManifest} (h : Accepted m) : m.Keyed := by
  obtain ⟨body, input, hinput, rfl⟩ := h
  exact (keyed_of_validated hinput).normalized

/-- A preview whose manifest and size its handler has checked. -/
def Admitted (d : ImportDraft) : Prop :=
  Accepted d.manifest ∧ assertAtomicCapacity d.effects.actions = .ok ()

/-- What a handler has before it stores a preview. -/
def Drafted (d : ImportDraft) (s : Store) : Prop :=
  Admitted d ∧ ∃ s₀, Derived d s₀ ∧ d.source_generation = s₀.generation ∧ Later s₀ s

/-- The columns of a preview that no later write sets. -/
structure SamePreview (p q : ImportPreviewRow) : Prop where
  id : q.id = p.id
  actor_subject : q.actor_subject = p.actor_subject
  source_generation : q.source_generation = p.source_generation
  preview_json : q.preview_json = p.preview_json
  actions_json : q.actions_json = p.actions_json
  effective_at : q.effective_at = p.effective_at
  expires_at : q.expires_at = p.expires_at

theorem SamePreview.refl (p : ImportPreviewRow) : SamePreview p p := ⟨rfl, rfl, rfl, rfl, rfl, rfl, rfl⟩

theorem SamePreview.trans {p q r : ImportPreviewRow} (h : SamePreview p q) (h' : SamePreview q r) :
    SamePreview p r :=
  ⟨h'.id.trans h.id, h'.actor_subject.trans h.actor_subject,
    h'.source_generation.trans h.source_generation, h'.preview_json.trans h.preview_json,
    h'.actions_json.trans h.actions_json, h'.effective_at.trans h.effective_at,
    h'.expires_at.trans h.expires_at⟩

/-- The entry has stored this preview. -/
def Persists (d : ImportDraft) (id : String) (e : CatalogEntry) : Prop :=
  e.write = .persist d ∧ e.result = .persisted (some (d.preview id))

/-- The entry has committed an import of this preview. -/
def Commits (id : String) (e : CatalogEntry) : Prop :=
  ∃ call effective_at actions preview, e.write = .applyImport call effective_at actions ∧
    call.previewId = id ∧ e.result = .applied (.ok preview)

/-! ## One apply -/

/-- A whole import: every row of its actions, their audit rows, the response and
the consumed preview. -/
structure Imported (r : ImportRun) (actions : List ImportAction) (p : ImportPreviewRow)
    (s s' : Store) : Prop where
  there : p ∈ s.catalog_import_previews
  features : Puts featureKey (featureRows actions) s.catalog_features s'.catalog_features
  plans : Puts planKey (planRows actions) s.catalog_plans s'.catalog_plans
  plan_features :
    Puts planFeatureKey (planFeatureRows actions) s.catalog_plan_features s'.catalog_plan_features
  events : s'.catalog_events = (actions.map (importEvent r)).reverse ++ s.catalog_events
  policies : s'.entitlement_policies = s.entitlement_policies
  previews : Puts (·.id) [consumed r p] s.catalog_import_previews s'.catalog_import_previews
  responded : Responded r p s'
  responses : ∀ i ∈ s.responses, i ∈ s'.responses

/-- An apply that commits: an older entry stored its preview, for this actor and
with effects of the catalog that is still there. -/
structure AppliedOnce (older : List CatalogEntry) (e : CatalogEntry) (call : ImportCall)
    (effective_at : Int) (actions : List ImportAction) (d : ImportDraft) : Prop where
  issued : ∃ q ∈ older, Persists d call.previewId q ∧ Derived d q.before ∧
    SameCatalog q.before e.before
  effects : d.effects.actions = actions
  time : d.effective_at = effective_at
  actor : d.actor_subject = call.actor.subject
  before_expiry : call.now < d.effective_at + previewTtlSeconds
  imported : ∃ token p, Imported (call.run effective_at token) actions p e.before e.after
  answer : e.result = .applied (.ok (d.preview call.previewId))
  first : ∀ e' ∈ older, ¬ Commits call.previewId e'

/-- An apply in a log commits its import, or it is an error that changes
nothing. -/
def ImportSettled (older : List CatalogEntry) (e : CatalogEntry) : Prop :=
  ∀ call effective_at actions, e.write = .applyImport call effective_at actions →
    (e.after = e.before ∧ ∃ error, e.result = .applied (.error error)) ∨
    ∃ d, AppliedOnce older e call effective_at actions d

/-! ## What holds in every state -/

/-- The ids of the previews have been drawn. -/
def PreviewsDrawn (w : CatalogWorld) : Prop :=
  ∀ p ∈ w.db.catalog_import_previews, ∃ id ∈ w.minted, p.id = previewId id

/-- A preview in the table comes from an older entry. -/
def Issued (w : CatalogWorld) (p : ImportPreviewRow) : Prop :=
  ∃ d, Admitted d ∧ SamePreview (d.row p.id) p ∧
    ∃ q ∈ w.log, Persists d p.id q ∧ Derived d q.before ∧
      d.source_generation = q.before.generation ∧ Later q.before w.db

/-- An id with a commit is drawn, and its preview is claimed. -/
def Spent (w : CatalogWorld) (id : String) : Prop :=
  (∃ i ∈ w.minted, id = previewId i) ∧
    ∀ p ∈ w.db.catalog_import_previews, p.id = id → p.claim_token ≠ none

structure ImportsKept (w : CatalogWorld) : Prop where
  drawn : PreviewsDrawn w
  tokens : ∀ p ∈ w.db.catalog_import_previews, ∀ token ∈ p.claim_token, token ∈ w.minted
  issued : ∀ p ∈ w.db.catalog_import_previews, Issued w p
  spent : ∀ e ∈ w.log, ∀ id, Commits id e → Spent w id
  settled : Chronicle ImportSettled w.log

/-- What others may do between two steps of a program. -/
structure Grows (w w' : CatalogWorld) : Prop where
  drawn : PreviewsDrawn w
  drawn' : PreviewsDrawn w'
  later : Later w.db w'.db
  minted : ∀ id ∈ w.minted, id ∈ w'.minted
  previews : ∀ p' ∈ w'.db.catalog_import_previews, (∃ id ∈ w.minted, p'.id = previewId id) →
    ∃ p ∈ w.db.catalog_import_previews, SamePreview p p'

theorem Grows.refl (h : PreviewsDrawn w) : Grows w w :=
  ⟨h, h, Later.refl _, fun _ hid => hid, fun p hp _ => ⟨p, hp, .refl p⟩⟩

theorem Grows.trans (h : Grows w w') (h' : Grows w' w'') : Grows w w'' where
  drawn := h.drawn
  drawn' := h'.drawn'
  later := h.later.trans h'.later
  minted id hid := h'.minted id (h.minted id hid)
  previews := by
    rintro p hp ⟨id, hid, hpid⟩
    obtain ⟨p', hp', hsame'⟩ := h'.previews p hp ⟨id, h.minted id hid, hpid⟩
    obtain ⟨p'', hp'', hsame⟩ := h.previews p' hp' ⟨id, hid, hsame'.id.symm.trans hpid⟩
    exact ⟨p'', hp'', hsame.trans hsame'⟩

/-! ## One step -/

/-- The entry that a write leaves in the log. -/
def entryOf (o : Oracle) (write : CatalogWrite) (w : CatalogWorld) : CatalogEntry :=
  ⟨write, (write.apply o w.db).1, w.db, (write.apply o w.db).2⟩

/-- A preview after a write that was there before. -/
structure KeptPreview (o : Oracle) (p p' : ImportPreviewRow) : Prop where
  same : SamePreview p p'
  token : p'.claim_token = p.claim_token ∨ p'.claim_token = some o.id

/-- A preview that the write has stored. -/
structure NewPreview (o : Oracle) (write : CatalogWrite) (w : CatalogWorld) (d : ImportDraft) :
    Prop where
  admitted : Admitted d
  persists : Persists d (previewId o.id) (entryOf o write w)
  derived : Derived d w.db
  generation : d.source_generation = w.db.generation

/-- What one write does to the previews. -/
structure PreviewStep (o : Oracle) (write : CatalogWrite) (w : CatalogWorld) : Prop where
  later : Later w.db (write.apply o w.db).2
  previews : ∀ p' ∈ (write.apply o w.db).2.catalog_import_previews,
    (∃ p ∈ w.db.catalog_import_previews, KeptPreview o p p') ∨
      ∃ d, p' = d.row (previewId o.id) ∧ NewPreview o write w d
  commits : ∀ id, Commits id (entryOf o write w) →
    (∃ p ∈ w.db.catalog_import_previews, p.id = id) ∧
      ∀ p' ∈ (write.apply o w.db).2.catalog_import_previews, p'.id = id → p'.claim_token ≠ none

theorem previewId_injective {a b : String} (h : previewId a = previewId b) : a = b := by
  have hlist := congrArg String.toList h
  simp only [previewId, String.toList_append, List.append_cancel_left_eq] at hlist
  exact String.ext hlist

section
variable {write : CatalogWrite}

theorem PreviewStep.drawn (h : PreviewStep o write w) (hd : PreviewsDrawn w) :
    PreviewsDrawn (World.exec CatalogWrite.apply o write w).2 := by
  intro p' hp'
  rcases h.previews p' hp' with ⟨p, hp, hk⟩ | ⟨d, rfl, -⟩
  · obtain ⟨id, hid, hpid⟩ := hd p hp
    exact ⟨id, List.mem_cons_of_mem _ hid, hk.same.id.trans hpid⟩
  · exact ⟨o.id, List.mem_cons_self, rfl⟩

/-- A step is one of those that the other programs expect. -/
theorem PreviewStep.grows (h : PreviewStep o write w) (ho : World.Admits o w)
    (hd : PreviewsDrawn w) : Grows w (World.exec CatalogWrite.apply o write w).2 where
  drawn := hd
  drawn' := h.drawn hd
  later := h.later
  minted _ hid := List.mem_cons_of_mem _ hid
  previews := by
    rintro p' hp' ⟨id, hid, hpid⟩
    rcases h.previews p' hp' with ⟨p, hp, hk⟩ | ⟨d, rfl, -⟩
    · exact ⟨p, hp, hk.same⟩
    · have hfresh := ho.fresh
      rw [previewId_injective (show previewId o.id = previewId id from hpid)] at hfresh
      exact absurd hid hfresh

theorem Issued.kept (h : Issued w p) (hstep : PreviewStep o write w) {p' : ImportPreviewRow}
    (hk : SamePreview p p') : Issued (World.exec CatalogWrite.apply o write w).2 p' := by
  obtain ⟨d, hd, hsame, q, hq, hpersists, hderived, hg, hlater⟩ := h
  refine ⟨d, hd, ?_, q, List.mem_cons_of_mem _ hq, ?_, hderived, hg, hlater.trans hstep.later⟩
  · rw [hk.id]
    exact hsame.trans hk
  · rw [hk.id]
    exact hpersists

theorem NewPreview.issued (h : NewPreview o write w d) (hstep : PreviewStep o write w) :
    Issued (World.exec CatalogWrite.apply o write w).2 (d.row (previewId o.id)) :=
  ⟨d, h.admitted, SamePreview.refl _, entryOf o write w, List.mem_cons_self, h.persists, h.derived,
    h.generation, hstep.later⟩

theorem Spent.kept {id : String} (h : Spent w id) (hstep : PreviewStep o write w)
    (ho : World.Admits o w) : Spent (World.exec CatalogWrite.apply o write w).2 id := by
  obtain ⟨⟨i, hi, rfl⟩, hclaimed⟩ := h
  refine ⟨⟨i, List.mem_cons_of_mem _ hi, rfl⟩, fun p' hp' hid => ?_⟩
  rcases hstep.previews p' hp' with ⟨p, hp, hk⟩ | ⟨d, rfl, -⟩
  · have hold := hclaimed p hp (hk.same.id.symm.trans hid)
    rcases hk.token with htoken | htoken
    · rw [htoken]
      exact hold
    · rw [htoken]
      simp
  · -- the id of a commit was drawn before this write
    have hfresh := ho.fresh
    rw [previewId_injective (show previewId o.id = previewId i from hid)] at hfresh
    exact absurd hi hfresh

/-- A write that settles its own entry keeps what holds in every state. -/
theorem ImportsKept.step (h : ImportsKept w) (ho : World.Admits o w)
    (hstep : PreviewStep o write w) (hsettled : ImportSettled w.log (entryOf o write w)) :
    ImportsKept (World.exec CatalogWrite.apply o write w).2 where
  drawn := hstep.drawn h.drawn
  tokens p' hp' token htoken := by
    rcases hstep.previews p' hp' with ⟨p, hp, hk⟩ | ⟨d, rfl, -⟩
    · rcases hk.token with heq | heq
      · exact List.mem_cons_of_mem _ (h.tokens p hp token (heq ▸ htoken))
      · rw [heq] at htoken
        obtain rfl := Option.some.inj htoken
        exact List.mem_cons_self
    · cases htoken
  issued p' hp' := by
    rcases hstep.previews p' hp' with ⟨p, hp, hk⟩ | ⟨d, rfl, hnew⟩
    · exact (h.issued p hp).kept hstep hk.same
    · exact hnew.issued hstep
  spent e he id hc := by
    rcases List.mem_cons.mp he with rfl | he
    · obtain ⟨⟨p, hp, rfl⟩, hclaimed⟩ := hstep.commits id hc
      obtain ⟨i, hi, hid⟩ := h.drawn p hp
      exact ⟨⟨i, List.mem_cons_of_mem _ hi, hid⟩, hclaimed⟩
    · exact (h.spent e he id hc).kept hstep ho
  settled := ⟨hsettled, h.settled⟩

end

/-! ## The three kinds of writes -/

/-- What the handler of an edit has checked. -/
def Edit.Checked (s : Store) : Edit → Prop
  | createFeature input => ∃ body, validateCatalogFeatureInput body = some input
  | patchFeature _ patch => ∃ body, validateCatalogFeaturePatch body = some patch
  | createPlan input => ∃ body, validateCatalogPlanInput false body = some input
  | patchPlan _ patch => ∃ body, validateCatalogPlanPatch body = some patch
  | savePlanFeature planId input _ => (∃ body, validateCatalogPlanFeatureInput body = some input) ∧
      (∃ p ∈ s.catalog_plans, planIdentity p = (input.project, planId)) ∧
      ∀ id ∈ input.policy_id, ∃ p ∈ s.entitlement_policies, policyIdentity p = (input.project, id)
  | _ => True

/-- What the write of a program meets when it runs. -/
def Prepared (write : CatalogWrite) (w : CatalogWorld) : Prop :=
  match write with
  | .persist d => Drafted d w.db
  | .applyImport call effective_at actions => ∀ p ∈ w.db.catalog_import_previews,
      p.id = call.previewId → p.actions_json = actions ∧ p.effective_at = effective_at
  | .edit _ e => e.Checked w.db

theorem later_previews {x : Except Abort (Nat × Table ImportPreviewRow)} {n : Nat}
    (h : onPreviews x s = .ok (n, s')) : Later s s' := by
  obtain ⟨t, -, rfl⟩ := stored_eq_ok.mp h
  exact .of_same ⟨rfl, rfl, rfl, rfl⟩ rfl

theorem mutation_later {r : ImportRun} {a : ImportAction} {time : Int} {changes n : Nat}
    (h : mutationStatement r a time changes s = .ok (n, s')) : Later s s' := by
  cases a with
  | feature e =>
    simp only [mutationStatement] at h
    split at h
    · split at h
      · refine later_features (fun _ => inserted_ne_zero) (fun m t ht => ?_) h
        exact insert_lasts (inserted_eq_ok.mp ht).2
      · obtain ⟨-, rfl⟩ := Prod.mk.inj (Except.ok.inj h)
        exact Later.refl _
    · refine later_features (fun _ => Table.update_zero) (fun m t ht => ?_) h
      exact update_lasts (fun p => by rfl) ht
  | plan e =>
    simp only [mutationStatement] at h
    split at h
    · split at h
      · refine later_plans (fun _ => inserted_ne_zero) (fun m t ht => ?_) h
        exact insert_lasts (inserted_eq_ok.mp ht).2
      · obtain ⟨-, rfl⟩ := Prod.mk.inj (Except.ok.inj h)
        exact Later.refl _
    · refine later_plans (fun _ => Table.update_zero) (fun m t ht => ?_) h
      exact update_lasts (fun p => by rfl) ht
  | planFeature e =>
    simp only [mutationStatement] at h
    split at h
    · split at h
      · exact later_insertPlanFeature h
      · obtain ⟨-, rfl⟩ := Prod.mk.inj (Except.ok.inj h)
        exact Later.refl _
    · exact later_updatePlanFeatures h

theorem Closed.later (h : Closed s s') : Later s s' := .of_same h.toSameCatalog h.generation

theorem import_stmt_later {r : ImportRun} {stmt : Stmt Store} {time : Int} {changes n : Nat}
    (hmem : stmt ∈ importBatch r actions) (h : stmt time changes s = .ok (n, s')) : Later s s' := by
  simp only [importBatch, closingStatements, List.mem_append, List.mem_cons, List.not_mem_nil,
    or_false, List.mem_flatten, List.mem_map] at hmem
  rcases hmem with ((rfl | rfl) | ⟨block, ⟨a, -, rfl⟩, hmem⟩) | rfl | rfl | rfl | rfl | rfl
  · exact later_previews h
  · obtain ⟨-, rfl⟩ := Prod.mk.inj (Except.ok.inj h)
    exact Later.refl _
  · simp only [actionStatements, List.mem_cons, List.not_mem_nil, or_false] at hmem
    rcases hmem with rfl | rfl | rfl
    · exact mutation_later h
    · unfold auditStatement at h
      split at h
      · obtain ⟨-, rfl⟩ := Prod.mk.inj (Except.ok.inj h)
        exact .of_same ⟨rfl, rfl, rfl, rfl⟩ rfl
      · obtain ⟨-, rfl⟩ := Prod.mk.inj (Except.ok.inj h)
        exact Later.refl _
    · rw [(asserts_ok h).2]
      exact Later.refl _
  · exact later_previews h
  · exact (remember_ok h).1.later
  · rw [(asserts_ok h).2]
    exact Later.refl _
  · exact later_previews h
  · rw [(asserts_ok h).2]
    exact Later.refl _

/-- A write that leaves the previews. -/
theorem PreviewStep.of_same {write : CatalogWrite} (hlater : Later w.db (write.apply o w.db).2)
    (hsame : (write.apply o w.db).2.catalog_import_previews = w.db.catalog_import_previews)
    (hno : ∀ id, ¬ Commits id (entryOf o write w)) : PreviewStep o write w where
  later := hlater
  previews p' hp' := by
    rw [hsame] at hp'
    exact .inl ⟨p', hp', SamePreview.refl p', .inl rfl⟩
  commits id hc := absurd hc (hno id)

theorem edit_step (c : EditContext) (e : Edit) : PreviewStep o (.edit c e) w := by
  refine .of_same ?_ ?_ ?_
  · simp only [CatalogWrite.apply]
    rcases transact_cases (e.batch c o.id) o.clock w.db with ⟨a, -, ht⟩ | ⟨ns, s', hrun, ht⟩
    · rw [ht]
      exact Later.refl _
    · rw [ht]
      obtain ⟨n, s₁, hwrite, hquiet⟩ := edit_ok hrun
      exact (write_later hwrite).trans hquiet.later
  · simp only [CatalogWrite.apply]
    rcases transact_cases (e.batch c o.id) o.clock w.db with ⟨a, -, ht⟩ | ⟨ns, s', hrun, ht⟩
    · rw [ht]
    · rw [ht]
      obtain ⟨n, s₁, hwrite, hquiet⟩ := edit_ok hrun
      exact hquiet.previews.trans (write_apart hwrite).previews
  · rintro id ⟨call, effective_at, actions, preview, hw, -, -⟩
    cases hw

/-- A batch that stores a preview writes previews only, and adds at most its own
row. -/
theorem persist_ok {id : String} {ns : List Nat} {clock : Nat → Int}
    (h : runBatch (persistBatch d id) clock 0 s = .ok (ns, s')) :
    ∃ t, s' = { s with catalog_import_previews := t } ∧
      (∀ p ∈ t, p ∈ s.catalog_import_previews ∨ (p = d.row id ∧ ns[1]? = some 1)) ∧
      (ns[1]? = some 1 → d.row id ∈ t ∧ s.generation = d.source_generation) := by
  unfold persistBatch at h
  obtain ⟨n₁, s₁, ms₁, h1, hrest, rfl⟩ := runBatch_cons.mp h
  obtain ⟨n₂, s₂, ms₂, h2, hend, rfl⟩ := runBatch_cons.mp hrest
  obtain ⟨rfl, rfl⟩ := runBatch_nil.mp hend
  unfold cleanupExpiredPreviewsStatement at h1
  obtain ⟨t₁, ht₁, rfl⟩ := stored_eq_ok.mp h1
  unfold insertPreviewStatement at h2
  split at h2
  · rename_i hg
    obtain ⟨t₂, ht₂, rfl⟩ := stored_eq_ok.mp h2
    obtain ⟨rfl, hinsert⟩ := inserted_eq_ok.mp ht₂
    refine ⟨t₂, rfl, fun p hp => ?_, fun _ => ⟨(Table.mem_of_insert hinsert).mpr (.inl rfl), hg⟩⟩
    rcases (Table.mem_of_insert hinsert).mp hp with rfl | hp
    · exact .inr ⟨rfl, rfl⟩
    · exact .inl ((Table.mem_of_delete ht₁).mp hp).1
  · obtain ⟨rfl, rfl⟩ := Prod.mk.inj (Except.ok.inj h2)
    refine ⟨t₁, rfl, fun p hp => .inl ((Table.mem_of_delete ht₁).mp hp).1, fun hn => ?_⟩
    simp at hn

theorem persist_step (hd : Drafted d w.db) : PreviewStep o (.persist d) w := by
  have hno : ∀ id, ¬ Commits id (entryOf o (.persist d) w) := by
    rintro id ⟨call, effective_at, actions, preview, hw, -, -⟩
    cases hw
  rcases transact_cases (persistBatch d (previewId o.id)) o.clock w.db with
    ⟨a, -, ht⟩ | ⟨ns, s', hrun, ht⟩
  · refine .of_same ?_ ?_ hno
    · simp only [CatalogWrite.apply, ht]
      exact Later.refl _
    · simp only [CatalogWrite.apply, ht]
  · obtain ⟨t, rfl, hrows, hstored⟩ := persist_ok hrun
    have happly : CatalogWrite.apply o (.persist d) w.db =
        (.persisted (if ns[1]? = some 1 then some (d.preview (previewId o.id)) else none),
          { w.db with catalog_import_previews := t }) := by
      simp only [CatalogWrite.apply, ht]
    refine ⟨?_, fun p' hp' => ?_, fun id hc => absurd hc (hno id)⟩
    · rw [happly]
      exact .of_same ⟨rfl, rfl, rfl, rfl⟩ rfl
    rw [happly] at hp'
    rcases hrows p' hp' with hp | ⟨rfl, hn⟩
    · exact .inl ⟨p', hp, SamePreview.refl p', .inl rfl⟩
    · obtain ⟨hadmitted, s₀, hderived, hg₀, hlater₀⟩ := hd
      have hg := (hstored hn).2
      have hgen : w.db.generation = s₀.generation := hg.trans hg₀
      refine .inr ⟨d, rfl, hadmitted, ⟨rfl, ?_⟩, ?_, hg.symm⟩
      · simp only [entryOf, happly, if_pos hn]
      · exact hderived.of_same (hlater₀.same hgen) hgen

/-! ## An apply -/

theorem derived_effects (h : Derived d s) : ∃ ids, d.effects =
    importEffects (buildSnapshot d.manifest s) ids d.manifest d.effective_at := by
  obtain ⟨ids, hderive⟩ := h
  unfold deriveEffects at hderive
  obtain ⟨-, heq⟩ := unit_bind_eq_ok.mp hderive
  exact ⟨ids, (Except.ok.inj heq).symm⟩

/-- The keys of a preview of the catalog that is there are distinct, so every row
of its actions is in its place. -/
theorem Committed.imported {r : ImportRun} (h : Committed r d.effects.actions p s s')
    (hm : d.manifest.Keyed) (hd : Derived d s) : Imported r d.effects.actions p s s' := by
  obtain ⟨ids, heffects⟩ := derived_effects hd
  have hplans : Puts planKey (planRows d.effects.actions) s.catalog_plans s'.catalog_plans := by
    apply h.plans
    rw [heffects]
    exact planRows_nodup hm
  have hown : OwnIds (buildSnapshot d.manifest s) ids d.manifest d.effective_at := by
    rw [heffects] at hplans
    exact ownIds_of_puts hm hplans
  refine {
    there := h.there, plans := hplans, events := h.events, policies := h.policies
    previews := h.previews, responded := h.responded, responses := h.responses
    features := h.features ?_
    plan_features := h.plan_features ?_ }
  · rw [heffects]
    exact featureRows_nodup hm
  · rw [heffects]
    exact planFeatureRows_nodup hm hown

/-- An apply without an effect. -/
theorem refused_step (error : String) (h : CatalogWrite.apply o
      (.applyImport call effective_at actions) w.db = (.applied (.error error), w.db)) :
    PreviewStep o (.applyImport call effective_at actions) w ∧
      ImportSettled w.log (entryOf o (.applyImport call effective_at actions) w) := by
  refine ⟨.of_same ?_ ?_ ?_, ?_⟩
  · rw [h]
    exact Later.refl _
  · rw [h]
  · rintro id ⟨_, _, _, _, -, -, hresult⟩
    simp only [entryOf, h] at hresult
    cases hresult
  · intro call' effective_at' actions' hw
    refine .inl ⟨?_, error, ?_⟩
    · simp only [entryOf, h]
    · simp only [entryOf, h]

/-- A claimed preview is one of the catalog that is there, and its import is whole. -/
theorem committed_import {r : ImportRun} (h : ImportsKept w)
    (hc : Committed r actions p w.db s') (hactions : p.actions_json = actions) :
    ∃ d, Admitted d ∧ SamePreview (d.row p.id) p ∧ Derived d w.db ∧ d.effects.actions = actions ∧
      Imported r actions p w.db s' ∧
      ∃ q ∈ w.log, Persists d p.id q ∧ Derived d q.before ∧ SameCatalog q.before w.db := by
  obtain ⟨d, hadmitted, hsame, q, hq, hpersists, hderived, hg, hsince⟩ := h.issued p hc.there
  have hgen : w.db.generation = q.before.generation :=
    hc.claimable.2.2.2.2.2.symm.trans (hsame.source_generation.trans hg)
  have hcatalog : SameCatalog q.before w.db := hsince.same hgen
  have heffects : d.effects.actions = actions := hsame.actions_json.symm.trans hactions
  have hd := hderived.of_same hcatalog hgen
  subst heffects
  exact ⟨d, hadmitted, hsame, hd, rfl, hc.imported hadmitted.1.keyed hd, q, hq, hpersists, hderived,
    hcatalog⟩

/-- The step of an apply that holds the claim. -/
theorem committed_step {ns : List Nat} (h : ImportsKept w)
    (hprepared : Prepared (.applyImport call effective_at actions) w)
    (hrun : runBatch (importBatch (call.run effective_at o.id) actions) o.clock 0 w.db = .ok (ns, s'))
    (hn : ns.head? ≠ some 0) :
    PreviewStep o (.applyImport call effective_at actions) w ∧
      ImportSettled w.log (entryOf o (.applyImport call effective_at actions) w) := by
  obtain ⟨p, hc⟩ := importBatch_claimed hrun hn
  have hid : p.id = call.previewId := hc.claimable.1
  have hlater : Later w.db s' := runBatch_rel Later.refl Later.trans
    (fun stmt hmem _ _ _ _ _ hs => import_stmt_later hmem hs) hrun
  have happly : CatalogWrite.apply o (.applyImport call effective_at actions) w.db =
      (.applied (.ok p.preview_json), s') := by
    simp only [CatalogWrite.apply, transact, hrun, importResult_committed hc hn]
  have hrow : ∀ p' ∈ s'.catalog_import_previews, p'.id = call.previewId →
      p' = consumed (call.run effective_at o.id) p := by
    intro p' hp' hid'
    exact Table.unique hp' (hc.previews.put List.mem_cons_self) (hid'.trans hid.symm)
  refine ⟨⟨by rw [happly]; exact hlater, fun p' hp' => ?_, ?_⟩, ?_⟩
  · rw [happly] at hp'
    rcases (hc.previews p').mp hp' with ⟨hold, -⟩ | hnew
    · exact .inl ⟨p', hold, SamePreview.refl p', .inl rfl⟩
    · obtain rfl := List.mem_singleton.mp hnew
      exact .inl ⟨p, hc.there, ⟨rfl, rfl, rfl, rfl, rfl, rfl, rfl⟩, .inr rfl⟩
  · rintro id ⟨call', effective_at', actions', preview, hw, rfl, -⟩
    obtain ⟨rfl, rfl, rfl⟩ := CatalogWrite.applyImport.inj hw
    refine ⟨⟨p, hc.there, hid⟩, fun p' hp' hid' => ?_⟩
    rw [happly] at hp'
    rw [hrow p' hp' hid']
    simp [consumed, answered, claim, ImportCall.run]
  · intro call' effective_at' actions' hw
    obtain ⟨rfl, rfl, rfl⟩ := CatalogWrite.applyImport.inj hw
    obtain ⟨hactions, htime⟩ := hprepared p hc.there hid
    obtain ⟨d, -, hsame, -, heffects, himported, q, hq, hpersists, hderived, hcatalog⟩ :=
      committed_import h hc hactions
    refine .inr ⟨d, {
      issued := ⟨q, hq, hid ▸ hpersists, hderived, hcatalog⟩
      effects := heffects
      time := hsame.effective_at.symm.trans htime
      actor := hsame.actor_subject.symm.trans hc.claimable.2.1
      before_expiry := ?_
      imported := ⟨o.id, p, ?_⟩
      answer := ?_
      first := fun e' he' hcommits => ?_ }⟩
    · rw [← show p.expires_at = d.effective_at + previewTtlSeconds from hsame.expires_at]
      exact hc.claimable.2.2.2.2.1
    · simp only [entryOf, happly]
      exact himported
    · simp only [entryOf, happly]
      rw [hsame.preview_json, ← hid]
      rfl
    · exact (h.spent e' he' _ hcommits).2 p hc.there hid hc.claimable.2.2.1

theorem import_step (h : ImportsKept w) (ho : World.Admits o w)
    (hprepared : Prepared (.applyImport call effective_at actions) w) :
    PreviewStep o (.applyImport call effective_at actions) w ∧
      ImportSettled w.log (entryOf o (.applyImport call effective_at actions) w) := by
  rcases transact_cases (importBatch (call.run effective_at o.id) actions) o.clock w.db with
    ⟨a, -, ht⟩ | ⟨ns, s', hrun, ht⟩
  · refine refused_step "catalog_mutation_failed" ?_
    simp only [CatalogWrite.apply, ht]
    rfl
  · by_cases hn : ns.head? = some 0
    · obtain rfl := importBatch_unclaimed hrun hn fun q hq htoken =>
        ho.fresh (h.tokens q hq o.id htoken)
      refine refused_step (claimFailure (call.run effective_at o.id) w.db) ?_
      simp only [CatalogWrite.apply, ht, importResult, hn]
      rfl
    · exact committed_step h hprepared hrun hn

/-- Each write that a program makes is a step that its entry settles. -/
theorem prepared_step {write : CatalogWrite} (h : ImportsKept w) (ho : World.Admits o w)
    (hp : Prepared write w) :
    PreviewStep o write w ∧ ImportSettled w.log (entryOf o write w) := by
  cases write with
  | persist d =>
    refine ⟨persist_step hp, fun call effective_at actions hw => ?_⟩
    cases hw
  | applyImport call effective_at actions => exact import_step h ho hp
  | edit c e =>
    refine ⟨edit_step c e, fun call effective_at actions hw => ?_⟩
    cases hw

/-! ## The programs -/

/-- What the programs of the system share. -/
abbrev catalogEnv : Prog.Env CatalogWorld CatalogWrite CatalogResult Oracle :=
  catalogSystem.env Grows

/-- A handler whose writes are prepared. -/
abbrev Handles {α : Type} (x : Handler α) (w : CatalogWorld) : Prop :=
  Prog.Ends catalogEnv Prepared (fun _ _ => True) x w

section
variable {α β : Type} {k : α → Handler β}

theorem select_handles {f : Store → α} (h : ∀ w', Grows w w' → Handles (k (f w'.db)) w') :
    Handles (select f >>= k) w := h

theorem check_handles {x : Except String α} (h : ∀ a, x = .ok a → Handles (k a) w) :
    Handles (check x >>= k) w := by
  cases x with
  | error e => exact Prog.Ends.throw (e := e)
  | ok a => exact h a rfl

theorem validated_handles {x : Option α} (h : ∀ a, x = some a → Handles (k a) w) :
    Handles (validated x >>= k) w := by
  cases x with
  | none => exact Prog.Ends.throw (e := "invalid_request")
  | some a => exact h a rfl

theorem found_handles {x : Option α} {missing : String} (h : ∀ a, x = some a → Handles (k a) w) :
    Handles (found x missing >>= k) w := by
  cases x with
  | none => exact Prog.Ends.throw (e := missing)
  | some a => exact h a rfl

theorem ensure_handles {c : Prop} [Decidable c] {message : String} {k : Unit → Handler β}
    (h : c → Handles (k ()) w) : Handles (check (ensure c message) >>= k) w := by
  refine check_handles fun u hu => h ?_
  unfold ensure at hu
  split at hu
  · assumption
  · cases hu

theorem request_handles {write : CatalogWrite} {k : Option CatalogResult → Handler β}
    (h : ∀ w', Grows w w' → Prepared write w') (hk : ∀ r w', Handles (k r) w') :
    Handles (ExceptT.lift (Prog.request write) >>= k) w := by
  refine Prog.Ends.bind (Q := fun _ _ => True) (Prog.Ends.lift ?_) fun r w' _ => hk r w'
  exact Prog.Safe.request h (fun _ _ _ _ => trivial) fun _ _ _ _ _ _ => trivial

end

theorem done_handles {α : Type} (a : α) : Handles (pure a) w :=
  Prog.Ends.pure fun _ _ => trivial

theorem save_handles {c : EditContext} {e : Edit} {conflict missing : String}
    (h : ∀ w', Grows w w' → e.Checked w'.db) : Handles (save c e conflict missing) w := by
  refine request_handles h fun r w' => ?_
  split
  · exact done_handles _
  · exact Prog.Ends.throw
  · exact Prog.Ends.throw
  · exact Prog.Ends.throw

theorem previewAttempts_handles {manifest : CatalogManifest} {digest subject : String} {now : Int}
    {ids : Nat → NewIds} (hm : Accepted manifest) (n : Nat) (w : CatalogWorld) :
    Handles (previewAttempts manifest digest subject now ids n) w := by
  induction n generalizing w with
  | zero => exact Prog.Ends.throw
  | succ n ih =>
    refine select_handles fun w₁ hgrows => ?_
    refine check_handles fun effects heffects => ?_
    refine check_handles fun _ hcapacity => ?_
    refine request_handles (fun w' h' => ?_) fun r w' => ?_
    · exact ⟨⟨hm, hcapacity⟩, w₁.db, ⟨ids n, heffects⟩, rfl, h'.later⟩
    · split
      · exact done_handles _
      · exact ih w'
      · exact Prog.Ends.throw

theorem previewCatalogImport_handles (digest : CatalogManifest → String) (body : Value)
    (subject : String) (now : Int) (ids : Nat → NewIds) (w : CatalogWorld) :
    Handles (previewCatalogImport digest body subject now ids) w := by
  unfold previewCatalogImport
  split
  · exact Prog.Ends.throw
  · rename_i input hinput
    split
    · exact Prog.Ends.throw
    · exact previewAttempts_handles ⟨body, input, hinput, rfl⟩ 3 w

theorem storedPreview_ok {id : String} {p : ImportPreviewRow} (h : storedPreview id s = .ok p) :
    p ∈ s.catalog_import_previews ∧ p.id = id := by
  unfold storedPreview at h
  split at h
  · cases h
  · rename_i p' hfind
    obtain ⟨-, h⟩ := ensure_bind_eq_ok.mp h
    obtain ⟨-, h⟩ := unit_bind_eq_ok.mp h
    obtain rfl := Except.ok.inj h
    exact Table.find?_some hfind

theorem applyCatalogImport_handles (call : ImportCall) (w : CatalogWorld) :
    Handles (applyCatalogImport call) w := by
  refine select_handles fun w₁ hgrows => ?_
  refine check_handles fun p hp => ?_
  obtain ⟨hin, hid⟩ := storedPreview_ok hp
  refine request_handles (fun w' h' => ?_) fun r w' => ?_
  · -- a later row with the id of the preview has its actions
    intro p' hp' hid'
    obtain ⟨i, hi, hdrawn⟩ := h'.drawn p hin
    obtain ⟨p₁, hp₁, hsame⟩ := h'.previews p' hp' ⟨i, hi, (hid'.trans hid.symm).trans hdrawn⟩
    obtain rfl : p₁ = p := Table.unique hp₁ hin (hsame.id.symm.trans (hid'.trans hid.symm))
    exact ⟨hsame.actions_json, hsame.effective_at⟩
  · split
    · exact done_handles _
    · exact Prog.Ends.throw
    · exact Prog.Ends.throw

theorem createCatalogPlanFeature_handles (c : EditContext) (planId : String) (body : Value)
    (w : CatalogWorld) : Handles (createCatalogPlanFeature c planId body) w := by
  unfold createCatalogPlanFeature
  refine validated_handles fun input hinput => ?_
  refine select_handles fun w₁ h₁ => ?_
  refine found_handles fun plan hplan => ?_
  refine ensure_handles fun hproject => ?_
  refine select_handles fun w₂ h₂ => ?_
  refine found_handles fun _ _ => ?_
  obtain ⟨hin, hid⟩ := Table.find?_some hplan
  have hplan' : ∃ p ∈ w₁.db.catalog_plans, planIdentity p = (input.project, planId) :=
    ⟨plan, hin, Prod.ext hproject hid⟩
  -- the save is checked whenever the policy of the input is one of its project
  have hsave : ∀ w', Grows w₁ w' → (∀ id ∈ input.policy_id, ∃ p ∈ w'.db.entitlement_policies,
      policyIdentity p = (input.project, id)) → Handles (do
        let existing ← select fun s => s.catalog_plan_features.find? fun f =>
          f.plan_id = planId ∧ f.feature_key = input.feature_key
        save c (.savePlanFeature planId input existing) "catalog_plan_feature_conflict"
          "catalog_mutation_failed") w' := by
    intro w' h' hpolicy
    refine select_handles fun w₃ h₃ => ?_
    refine save_handles fun w₄ h₄ => ⟨⟨body, hinput⟩, ?_, fun id hmem => ?_⟩
    · exact lasts_of_key (h'.trans (h₃.trans h₄)).later.plans hplan'
    · exact lasts_of_key (h₃.trans h₄).later.policies (hpolicy id hmem)
  split
  · exact hsave w₂ h₂ fun id hmem => by simp_all
  · rename_i id hpolicyId
    refine select_handles fun w₃ h₃ => ?_
    refine check_handles fun _ hchecked => hsave w₃ (h₂.trans h₃) fun id' hmem => ?_
    rw [hpolicyId] at hmem
    obtain rfl := Option.some.inj hmem
    unfold checkPolicy at hchecked
    split at hchecked
    · cases hchecked
    · rename_i policy hpolicy
      obtain ⟨hin, hid⟩ := Table.find?_some hpolicy
      by_cases hp : policy.project = input.project
      · exact ⟨policy, hin, Prod.ext hp hid⟩
      · rw [if_pos hp] at hchecked
        cases hchecked

theorem transitionWithGuard_handles {ρ : Type} {c : EditContext} {action : Transition}
    {reason missing conflict : String} {read : Store → Option ρ} {status : ρ → CatalogStatus}
    {edit : ρ → Edit} (h : ∀ row s, (edit row).Checked s) (w : CatalogWorld) :
    Handles (transitionWithGuard c action reason read status edit missing conflict) w := by
  refine ensure_handles fun _ => ?_
  refine select_handles fun w₁ _ => ?_
  refine found_handles fun row _ => ?_
  refine ensure_handles fun _ => ?_
  exact save_handles fun w' _ => h row w'.db

/-- Every program of the system prepares its writes. -/
theorem run_handles {p : Prog CatalogWorld CatalogWrite CatalogResult (Except String CatalogAnswer)}
    (hp : CatalogRun p) (w : CatalogWorld) :
    p.Safe catalogEnv Prepared (fun _ _ => True) w := by
  suffices h : ∃ x : Handler CatalogAnswer, p = x.run ∧ Handles x w by
    obtain ⟨x, rfl, hx⟩ := h
    exact hx.mono (fun _ _ hw => hw) fun _ _ _ => trivial
  cases hp with
  | preview digest body subject now ids =>
    exact ⟨_, rfl, previewCatalogImport_handles digest body subject now ids w⟩
  | apply call => exact ⟨_, rfl, applyCatalogImport_handles call w⟩
  | createFeature c body =>
    refine ⟨_, rfl, validated_handles fun input hinput => ?_⟩
    exact save_handles fun _ _ => ⟨body, hinput⟩
  | patchFeature c id body =>
    refine ⟨_, rfl, validated_handles fun patch hpatch => ?_⟩
    refine select_handles fun _ _ => found_handles fun _ _ => ?_
    exact save_handles fun _ _ => ⟨body, hpatch⟩
  | createPlan c body =>
    refine ⟨_, rfl, validated_handles fun input hinput => ?_⟩
    exact save_handles fun _ _ => ⟨body, hinput⟩
  | patchPlan c id body =>
    refine ⟨_, rfl, validated_handles fun patch hpatch => ?_⟩
    refine select_handles fun _ _ => found_handles fun _ _ => ?_
    exact save_handles fun _ _ => ⟨body, hpatch⟩
  | createPlanFeature c planId body =>
    exact ⟨_, rfl, createCatalogPlanFeature_handles c planId body w⟩
  | createPolicy c input => exact ⟨_, rfl, save_handles fun _ _ => trivial⟩
  | patchPolicy c id patch =>
    refine ⟨_, rfl, select_handles fun _ _ => found_handles fun _ _ => ?_⟩
    exact save_handles fun _ _ => trivial
  | transitionFeature | transitionPlan | transitionPlanFeature | transitionPolicy =>
    refine ⟨_, rfl, transitionWithGuard_handles ?_ w⟩
    exact fun _ _ => trivial

/-! ## Every run -/

theorem catalog_keeps : catalogSystem.Keeps Grows Prepared ImportsKept where
  refl w h := Grows.refl h.drawn
  trans := Grows.trans
  inv o write w ho hp h := by
    obtain ⟨hstep, hsettled⟩ := prepared_step h ho hp
    exact h.step ho hstep hsettled
  guarantee o write w ho hp h := (prepared_step h ho hp).1.grows ho h.drawn

/-- A world before its first preview. -/
structure BeforePreviews (w : CatalogWorld) : Prop where
  previews : w.db.catalog_import_previews = .empty
  log : w.log = []

theorem BeforePreviews.kept (h : BeforePreviews w) : ImportsKept w where
  drawn p hp := by
    rw [h.previews] at hp
    exact absurd hp Table.not_mem_empty
  tokens p hp := by
    rw [h.previews] at hp
    exact absurd hp Table.not_mem_empty
  issued p hp := by
    rw [h.previews] at hp
    exact absurd hp Table.not_mem_empty
  spent e he := by
    rw [h.log] at he
    cases he
  settled := by
    rw [h.log]
    trivial

/-- In every run each apply commits its whole import on the catalog that its
preview has read, once, for the actor of the preview and before it expires, or
it is an error that changes nothing. -/
theorem each_import_commits_whole_and_once
    {c : Config CatalogWorld CatalogWrite CatalogResult (Except String CatalogAnswer)}
    (h0 : BeforePreviews w) (h : catalogSystem.Reach ⟨w, []⟩ c) :
    Chronicle ImportSettled c.state.log :=
  (System.reach_safe catalog_keeps (fun _ hp w _ => run_handles hp w) h0.kept h).inv.settled

/-! ## A run of one preview -/

/-- A world with an empty catalog. -/
def emptyCatalog : CatalogWorld := ⟨0, [], {}, []⟩

/-- The body of an import of one feature. -/
def exampleImport : Value :=
  .object [
    ("features", .array [.object [("project", .string "p"), ("feature_key", .string "f"),
      ("name", .string "F")]]),
    ("plans", .array [])]

def exampleAdmin : Actor := ⟨"s", "", .access⟩

def exampleCall (key : String) : ImportCall where
  previewId := "civ_a"
  actor := exampleAdmin
  requestId := "q"
  idempotencyKey := key
  now := 10

/-- A preview, and two applies of it that both read before one of them commits. -/
def importSchedule :
    List (World.Action Store CatalogWrite CatalogResult (Except String CatalogAnswer)) := [
  .start (previewCatalogImport (fun _ => "digest") exampleImport exampleAdmin.subject 0
    fun _ => ⟨fun _ => "feat_x", fun _ => "plan_x"⟩).run,
  .read 0, .write 0 1 "a",
  .start (applyCatalogImport (exampleCall "k")).run, .read 0,
  .start (applyCatalogImport (exampleCall "l")).run, .read 0,
  .write 1 11 "t", .write 0 12 "u"]

set_option maxRecDepth 20000 in
def importEnd : Config CatalogWorld CatalogWrite CatalogResult (Except String CatalogAnswer) :=
  (World.play CatalogWrite.apply ⟨emptyCatalog, []⟩ importSchedule).get (by decide)

theorem importEnd_reached : catalogSystem.Reach ⟨emptyCatalog, []⟩ importEnd :=
  World.reach_of_play (Option.some_get _).symm
    ⟨.preview _ _ _ _ _, .apply _, .apply _, ⟨⟩⟩

/-- The first apply stores the feature, and the second is an error. -/
theorem the_second_apply_is_refused :
    importEnd.state.log.map (fun e => match e.result with
      | .applied (.error error) => error
      | .applied (.ok _) => "applied"
      | _ => "previewed") = ["claimed_catalog_import_preview", "applied", "previewed"] ∧
    Chronicle ImportSettled importEnd.state.log :=
  ⟨by decide, each_import_commits_whole_and_once ⟨rfl, rfl⟩ importEnd_reached⟩

end Licensecc.Catalog
