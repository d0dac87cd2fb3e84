-- What the batch of an import does. With the claim it writes the row of each
-- action, the audit rows and the response, and consumes the preview, and without
-- the claim it changes nothing.
import Licensecc.Catalog.Writes
import Licensecc.Sql.Puts

open Licensecc.Sql

namespace Licensecc.Catalog

variable {r : ImportRun} {s s' s'' : Store} {time : Int} {changes n : Nat} {ns : List Nat}
  {clock : Nat → Int} {a : ImportAction} {actions : List ImportAction} {p : ImportPreviewRow}

/-! ## The rows of the actions -/

def featureRows (actions : List ImportAction) : List CatalogFeature :=
  actions.filterMap fun a => match a with
    | .feature e => some e.after
    | _ => none

def planRows (actions : List ImportAction) : List CatalogPlan :=
  actions.filterMap fun a => match a with
    | .plan e => some e.after
    | _ => none

def planFeatureRows (actions : List ImportAction) : List CatalogPlanFeature :=
  actions.filterMap fun a => match a with
    | .planFeature e => some e.after
    | _ => none

def planKey (p : CatalogPlan) : String × String := (p.project, p.plan_key)

def planFeatureKey (f : CatalogPlanFeature) : String × String := (f.plan_id, f.feature_key)

theorem feature_clash {f g : CatalogFeature} (h : featureKey f = featureKey g) :
    Schema.clash f g := .inr (Prod.mk.inj h)

theorem plan_clash {p q : CatalogPlan} (h : planKey p = planKey q) : Schema.clash p q :=
  .inr (Prod.mk.inj h)

theorem planFeature_clash {f g : CatalogPlanFeature} (h : planFeatureKey f = planFeatureKey g) :
    Schema.clash f g := .inl (Prod.mk.inj h)

/-! ## One action -/

/-- What the statements of some actions have done to the store. Rows of one
table whose keys differ are all there. -/
structure ActionsDone (r : ImportRun) (actions : List ImportAction) (s s' : Store) : Prop where
  features : ((featureRows actions).map featureKey).Nodup →
    Puts featureKey (featureRows actions) s.catalog_features s'.catalog_features
  plans : ((planRows actions).map planKey).Nodup →
    Puts planKey (planRows actions) s.catalog_plans s'.catalog_plans
  plan_features : ((planFeatureRows actions).map planFeatureKey).Nodup →
    Puts planFeatureKey (planFeatureRows actions) s.catalog_plan_features s'.catalog_plan_features
  events : s'.catalog_events = (actions.map (importEvent r)).reverse ++ s.catalog_events
  policies : s'.entitlement_policies = s.entitlement_policies
  previews : s'.catalog_import_previews = s.catalog_import_previews
  responses : s'.responses = s.responses

/-- The write of an action with the claim. -/
structure Mutated (a : ImportAction) (s s' : Store) : Prop where
  features : Stored a s' →
    Puts featureKey (featureRows [a]) s.catalog_features s'.catalog_features
  plans : Stored a s' → Puts planKey (planRows [a]) s.catalog_plans s'.catalog_plans
  plan_features : Stored a s' →
    Puts planFeatureKey (planFeatureRows [a]) s.catalog_plan_features s'.catalog_plan_features
  events : s'.catalog_events = s.catalog_events
  policies : s'.entitlement_policies = s.entitlement_policies
  previews : s'.catalog_import_previews = s.catalog_import_previews
  responses : s'.responses = s.responses

theorem claimed_of_previews (h : s'.catalog_import_previews = s.catalog_import_previews) :
    Claimed r s' ↔ Claimed r s := by
  unfold Claimed
  rw [h]

theorem mutation_feature {e : RowEffect CatalogFeature} (hc : Claimed r s)
    (h : mutationStatement r (.feature e) time changes s = .ok (n, s')) :
    Mutated (.feature e) s s' := by
  simp only [mutationStatement] at h
  by_cases he : e.effect = .create
  · rw [if_pos he, if_pos hc] at h
    obtain ⟨t, ht, rfl⟩ := counted_eq_ok.mp h
    exact {
      features := fun _ => puts_of_insert (fun _ hk => feature_clash hk.symm) (inserted_eq_ok.mp ht).2
      plans := fun _ => Puts.nil _ _
      plan_features := fun _ => Puts.nil _ _
      events := rfl, policies := rfl, previews := rfl, responses := rfl }
  · rw [if_neg he] at h
    obtain ⟨t, ht, rfl⟩ := counted_eq_ok.mp h
    refine {
      features := fun hin => puts_of_update (fun _ _ => feature_clash) ?_ ?_ ?_ ht hin
      plans := fun _ => Puts.nil _ _
      plan_features := fun _ => Puts.nil _ _
      events := rfl, policies := rfl, previews := rfl, responses := rfl }
    · exact fun f hf => Prod.ext hf.2.1 hf.2.2.1
    · exact fun f hf => rfl
    · exact ⟨rfl, rfl, rfl, hc⟩

theorem mutation_plan {e : RowEffect CatalogPlan} (hc : Claimed r s)
    (h : mutationStatement r (.plan e) time changes s = .ok (n, s')) : Mutated (.plan e) s s' := by
  simp only [mutationStatement] at h
  by_cases he : e.effect = .create
  · rw [if_pos he, if_pos hc] at h
    obtain ⟨t, ht, rfl⟩ := counted_eq_ok.mp h
    exact {
      features := fun _ => Puts.nil _ _
      plans := fun _ => puts_of_insert (fun _ hk => plan_clash hk.symm) (inserted_eq_ok.mp ht).2
      plan_features := fun _ => Puts.nil _ _
      events := rfl, policies := rfl, previews := rfl, responses := rfl }
  · rw [if_neg he] at h
    obtain ⟨t, ht, rfl⟩ := counted_eq_ok.mp h
    refine {
      features := fun _ => Puts.nil _ _
      plans := fun hin => puts_of_update (fun _ _ => plan_clash) ?_ ?_ ?_ ht hin
      plan_features := fun _ => Puts.nil _ _
      events := rfl, policies := rfl, previews := rfl, responses := rfl }
    · exact fun f hf => Prod.ext hf.2.1 hf.2.2.1
    · exact fun f hf => rfl
    · exact ⟨rfl, rfl, rfl, hc⟩

theorem mutation_planFeature {e : RowEffect CatalogPlanFeature} (hc : Claimed r s)
    (h : mutationStatement r (.planFeature e) time changes s = .ok (n, s')) :
    Mutated (.planFeature e) s s' := by
  simp only [mutationStatement] at h
  by_cases he : e.effect = .create
  · rw [if_pos he, if_pos hc] at h
    obtain ⟨t, ht, rfl⟩ := counted_eq_ok.mp (require_bind_eq_ok.mp h).2
    exact {
      features := fun _ => Puts.nil _ _
      plans := fun _ => Puts.nil _ _
      plan_features := fun _ =>
        puts_of_insert (fun _ hk => planFeature_clash hk.symm) (inserted_eq_ok.mp ht).2
      events := rfl, policies := rfl, previews := rfl, responses := rfl }
  · rw [if_neg he] at h
    obtain ⟨t, ht, rfl⟩ := counted_eq_ok.mp (require_bind_eq_ok.mp h).2
    refine {
      features := fun _ => Puts.nil _ _
      plans := fun _ => Puts.nil _ _
      plan_features := fun hin => puts_of_update (fun _ _ => planFeature_clash) ?_ ?_ ?_ ht hin
      events := rfl, policies := rfl, previews := rfl, responses := rfl }
    · exact fun f hf => Prod.ext hf.2.1.1 hf.2.1.2
    · exact fun f hf => rfl
    · exact ⟨rfl, ⟨rfl, rfl⟩, hc⟩

theorem mutation_ok (hc : Claimed r s) (h : mutationStatement r a time changes s = .ok (n, s')) :
    Mutated a s s' := by
  cases a with
  | feature e => exact mutation_feature hc h
  | plan e => exact mutation_plan hc h
  | planFeature e => exact mutation_planFeature hc h

/-- The statements of one action with the claim: its row is there, with one audit
row. -/
theorem action_ok (hc : Claimed r s)
    (h : runBatch (actionStatements r a) clock changes s = .ok (ns, s')) :
    ActionsDone r [a] s s' ∧ Stored a s' := by
  obtain ⟨n₁, s₁, ms, h1, hrest, -⟩ := runBatch_cons.mp h
  obtain ⟨n₂, s₂, ms₂, h2, hrest, -⟩ := runBatch_cons.mp hrest
  obtain ⟨n₃, s₃, ms₃, h3, hrest, -⟩ := runBatch_cons.mp hrest
  obtain ⟨-, rfl⟩ := runBatch_nil.mp hrest
  have hm := mutation_ok hc h1
  have hc₁ : Claimed r s₁ := (claimed_of_previews hm.previews).mpr hc
  obtain ⟨hasserted, rfl⟩ := asserts_ok h3
  unfold auditStatement at h2
  by_cases hs : Stored a s₁ ∧ Claimed r s₁
  · rw [if_pos hs] at h2
    obtain ⟨-, rfl⟩ := Prod.mk.inj (Except.ok.inj h2)
    refine ⟨{
      features := fun _ => hm.features hs.1
      plans := fun _ => hm.plans hs.1
      plan_features := fun _ => hm.plan_features hs.1
      events := ?_
      policies := hm.policies, previews := hm.previews, responses := hm.responses }, ?_⟩
    · rw [← hm.events]
      rfl
    · cases a <;> exact hs.1
  · rw [if_neg hs] at h2
    obtain ⟨-, rfl⟩ := Prod.mk.inj (Except.ok.inj h2)
    rcases hasserted with hno | hyes
    · exact absurd hc₁ hno
    · exact absurd ⟨hyes.1, hc₁⟩ hs

/-! ## All actions -/

theorem ActionsDone.nil (r : ImportRun) (s : Store) : ActionsDone r [] s s where
  features _ := Puts.nil _ _
  plans _ := Puts.nil _ _
  plan_features _ := Puts.nil _ _
  events := rfl
  policies := rfl
  previews := rfl
  responses := rfl

/-- Two puts of rows whose keys differ make one. -/
theorem puts_append {ρ κ : Type} [Schema ρ] {key : ρ → κ} {l l' : List ρ} {t t' t'' : Table ρ}
    (h : (l.map key).Nodup → Puts key l t t') (h' : (l'.map key).Nodup → Puts key l' t' t'')
    (hd : ((l ++ l').map key).Nodup) : Puts key (l ++ l') t t'' := by
  rw [List.map_append, List.nodup_append] at hd
  refine (h hd.1).trans (h' hd.2.1) fun r hr hk => ?_
  exact hd.2.2 _ (List.mem_map_of_mem hr) _ hk rfl

theorem ActionsDone.append {as bs : List ImportAction} (h : ActionsDone r as s s')
    (h' : ActionsDone r bs s' s'') : ActionsDone r (as ++ bs) s s'' where
  features := by
    unfold featureRows
    rw [List.filterMap_append]
    exact puts_append h.features h'.features
  plans := by
    unfold planRows
    rw [List.filterMap_append]
    exact puts_append h.plans h'.plans
  plan_features := by
    unfold planFeatureRows
    rw [List.filterMap_append]
    exact puts_append h.plan_features h'.plan_features
  events := by
    rw [h'.events, h.events, List.map_append, List.reverse_append, List.append_assoc]
  policies := h'.policies.trans h.policies
  previews := h'.previews.trans h.previews
  responses := h'.responses.trans h.responses

/-- The statements of all actions with the claim. -/
theorem actions_ok (hc : Claimed r s)
    (h : runBatch (actions.map (actionStatements r)).flatten clock changes s = .ok (ns, s')) :
    ActionsDone r actions s s' := by
  induction actions generalizing clock changes s ns with
  | nil =>
    obtain ⟨-, rfl⟩ := runBatch_nil.mp h
    exact ActionsDone.nil r _
  | cons a actions ih =>
    rw [List.map_cons, List.flatten_cons] at h
    obtain ⟨ms, s₁, clock', changes', ms', h1, h2, -⟩ := runBatch_append h
    have hfirst := (action_ok hc h1).1
    exact hfirst.append (ih ((claimed_of_previews hfirst.previews).mpr hc) h2)

/-! ## The claim -/

theorem preview_clash (p q : ImportPreviewRow) (h : p.id = q.id) : Schema.clash p q := h

theorem held_unique (p q : ImportPreviewRow) (hp : Held r p) (hq : Held r q) :
    Schema.clash p q := hp.1.trans hq.1.symm

/-- A claim that counts a row holds the one row of its preview. -/
theorem claim_ok (h : claimStatement r time changes s = .ok (n, s')) (hn : n ≠ 0) :
    ∃ p ∈ s.catalog_import_previews, Claimable r s p ∧ ∃ t, s' = { s with
        catalog_import_previews := t } ∧ Puts (·.id) [claim r p] s.catalog_import_previews t := by
  unfold claimStatement at h
  obtain ⟨t, ht, rfl⟩ := stored_eq_ok.mp h
  obtain ⟨p, hp, hc⟩ : ∃ p ∈ s.catalog_import_previews, Claimable r s p := by
    by_contra hno
    refine hn ((Table.update_eq_ok.mp ht).2.1.trans (Table.count_eq_zero.mpr fun p hp hc => ?_))
    exact hno ⟨p, hp, hc⟩
  refine ⟨p, hp, hc, t, rfl, puts_of_update_one preview_clash ht hp hc ?_ rfl⟩
  exact fun q hq => hq.1.trans hc.1.symm

/-- A claim that counts no row changes nothing. -/
theorem claim_zero (h : claimStatement r time changes s = .ok (0, s')) : s' = s := by
  unfold claimStatement at h
  obtain ⟨t, ht, rfl⟩ := stored_eq_ok.mp h
  rw [Table.update_zero ht]

/-! ## The closing statements -/

def answered (r : ImportRun) (p : ImportPreviewRow) : ImportPreviewRow :=
  { claim r p with applied_response_json := some (appliedResponse r p) }

/-- The row of a preview that an apply has consumed. -/
def consumed (r : ImportRun) (p : ImportPreviewRow) : ImportPreviewRow :=
  { answered r p with consumed_at := some r.now }

/-- The response is stored under the key of the request. -/
def Responded (r : ImportRun) (p : ImportPreviewRow) (s : Store) : Prop :=
  ∃ i ∈ s.responses, i.scope = importScope r.actor ∧ i.idempotency_key = r.idempotencyKey ∧
    i.response_json = .catalogImport (appliedResponse r p)

/-- The tables that the closing statements leave. -/
structure Closed (s s' : Store) : Prop extends SameCatalog s s' where
  generation : s'.generation = s.generation
  events : s'.catalog_events = s.catalog_events
  responses : ∀ i ∈ s.responses, i ∈ s'.responses

theorem Closed.trans (h : Closed s s') (h' : Closed s' s'') : Closed s s'' where
  toSameCatalog := h.toSameCatalog.trans h'.toSameCatalog
  generation := h'.generation.trans h.generation
  events := h'.events.trans h.events
  responses i hi := h'.responses i (h.responses i hi)

theorem closed_previews (s : Store) (t : Table ImportPreviewRow) :
    Closed s { s with catalog_import_previews := t } :=
  ⟨⟨rfl, rfl, rfl, rfl⟩, rfl, rfl, fun _ h => h⟩

/-- The held row is the one that a search of the claim finds. -/
theorem find_held {q : ImportPreviewRow} (hq : q ∈ s.catalog_import_previews) (hh : Held r q) :
    heldResponse r s = q.applied_response_json := by
  unfold heldResponse
  rw [Table.find?_eq hq hh held_unique]
  rfl

theorem remember_ok {scope key : String} {body : Store → Option MutationBody} {now : Int}
    (h : Store.remember scope key body now time changes s = .ok (n, s')) :
    Closed s s' ∧ s'.catalog_import_previews = s.catalog_import_previews := by
  unfold Store.remember at h
  split at h
  · obtain ⟨-, rfl⟩ := Prod.mk.inj (Except.ok.inj h)
    exact ⟨closed_previews _ _, rfl⟩
  · split at h
    · obtain ⟨-, rfl⟩ := Prod.mk.inj (Except.ok.inj h)
      exact ⟨closed_previews _ _, rfl⟩
    · obtain ⟨t, ht, rfl⟩ := stored_eq_ok.mp h
      refine ⟨⟨⟨rfl, rfl, rfl, rfl⟩, rfl, rfl, fun i hi => ?_⟩, rfl⟩
      exact (Table.mem_of_insert (inserted_eq_ok.mp ht).2).mpr (.inr hi)

/-- The closing statements with the claim. -/
theorem closing_ok (hp : claim r p ∈ s.catalog_import_previews) (hheld : Held r (claim r p))
    (h : runBatch (closingStatements r) clock changes s = .ok (ns, s')) :
    Closed s s' ∧ Responded r p s' ∧
      Puts (·.id) [consumed r p] s.catalog_import_previews s'.catalog_import_previews := by
  unfold closingStatements at h
  obtain ⟨n₁, s₁, ms₁, h1, h, -⟩ := runBatch_cons.mp h
  obtain ⟨n₂, s₂, ms₂, h2, h, -⟩ := runBatch_cons.mp h
  obtain ⟨n₃, s₃, ms₃, h3, h, -⟩ := runBatch_cons.mp h
  obtain ⟨n₄, s₄, ms₄, h4, h, -⟩ := runBatch_cons.mp h
  obtain ⟨n₅, s₅, ms₅, h5, h, -⟩ := runBatch_cons.mp h
  obtain ⟨-, rfl⟩ := runBatch_nil.mp h
  have hsel : ∀ q, Held r q → q.id = p.id := fun q hq => hq.1.trans hheld.1.symm
  unfold responseStatement at h1
  unfold consumeStatement at h4
  obtain ⟨t₁, ht₁, rfl⟩ := stored_eq_ok.mp h1
  have hput₁ := puts_of_update_one preview_clash ht₁ hp hheld hsel rfl
  have hin₁ : answered r p ∈ t₁ := hput₁.put List.mem_cons_self
  obtain ⟨hclosed₂, hsame₂⟩ := remember_ok h2
  have hin₂ : answered r p ∈ s₂.catalog_import_previews := by
    rw [hsame₂]
    exact hin₁
  obtain ⟨hassert, rfl⟩ := asserts_ok h3
  obtain ⟨t₄, ht₄, rfl⟩ := stored_eq_ok.mp h4
  obtain ⟨-, rfl⟩ := asserts_ok h5
  have hput₄ := puts_of_update_one preview_clash ht₄ hin₂ ⟨hheld, by simp [answered]⟩
    (fun q hq => hsel q hq.1) rfl
  refine ⟨((closed_previews s t₁).trans hclosed₂).trans (closed_previews _ _), ?_, ?_⟩
  · rcases hassert with hno | ⟨i, hi, hscope, hkey, hbody⟩
    · exact absurd ⟨_, hin₂, hheld⟩ hno
    · rw [find_held hin₂ hheld] at hbody
      exact ⟨i, hi, hscope, hkey, Option.some.inj hbody⟩
  · rw [hsame₂] at hput₄
    exact hput₁.replace hput₄ rfl

/-! ## The whole batch -/

/-- What an apply that holds the claim on this preview has done. -/
structure Committed (r : ImportRun) (actions : List ImportAction) (p : ImportPreviewRow)
    (s s' : Store) : Prop where
  there : p ∈ s.catalog_import_previews
  claimable : Claimable r s p
  features : ((featureRows actions).map featureKey).Nodup →
    Puts featureKey (featureRows actions) s.catalog_features s'.catalog_features
  plans : ((planRows actions).map planKey).Nodup →
    Puts planKey (planRows actions) s.catalog_plans s'.catalog_plans
  plan_features : ((planFeatureRows actions).map planFeatureKey).Nodup →
    Puts planFeatureKey (planFeatureRows actions) s.catalog_plan_features s'.catalog_plan_features
  events : s'.catalog_events = (actions.map (importEvent r)).reverse ++ s.catalog_events
  policies : s'.entitlement_policies = s.entitlement_policies
  previews : Puts (·.id) [consumed r p] s.catalog_import_previews s'.catalog_import_previews
  responded : Responded r p s'
  responses : ∀ i ∈ s.responses, i ∈ s'.responses

/-- The batch with the claim. -/
theorem importBatch_claimed (h : runBatch (importBatch r actions) clock 0 s = .ok (ns, s'))
    (hn : ns.head? ≠ some 0) : ∃ p, Committed r actions p s s' := by
  unfold importBatch at h
  obtain ⟨ms, s₂, clock₂, changes₂, ms₂, hfirst, hclosing, rfl⟩ := runBatch_append h
  rw [List.cons_append] at hfirst
  obtain ⟨n₁, s₁, ms₁, h1, hrest, rfl⟩ := runBatch_cons.mp hfirst
  rw [List.singleton_append] at hrest
  obtain ⟨n₀, s₀, ms₀, h0, hactions, -⟩ := runBatch_cons.mp hrest
  obtain ⟨-, rfl⟩ := Prod.mk.inj (Except.ok.inj h0)
  obtain ⟨p, hp, hc, t, rfl, hput⟩ := claim_ok h1 fun hz => hn (by rw [hz]; rfl)
  have hin : claim r p ∈ t := hput.put List.mem_cons_self
  have hheld : Held r (claim r p) := ⟨hc.1, rfl, hc.2.2.2.1⟩
  have hdone := actions_ok ⟨_, hin, hheld⟩ hactions
  have hin₂ : claim r p ∈ s₂.catalog_import_previews := by
    rw [hdone.previews]
    exact hin
  obtain ⟨hclosed, hresponded, hput₂⟩ := closing_ok hin₂ hheld hclosing
  rw [hdone.previews] at hput₂
  refine ⟨p, {
    there := hp, claimable := hc, responded := hresponded
    features := fun hd => ?_
    plans := fun hd => ?_
    plan_features := fun hd => ?_
    events := hclosed.events.trans hdone.events
    policies := hclosed.policies.trans hdone.policies
    previews := hput.replace hput₂ rfl
    responses := fun i hi => hclosed.responses i (by rw [hdone.responses]; exact hi) }⟩
  · rw [hclosed.features]
    exact hdone.features hd
  · rw [hclosed.plans]
    exact hdone.plans hd
  · rw [hclosed.plan_features]
    exact hdone.plan_features hd

/-! ## Without the claim -/

theorem onPreviews_update_none {sel : ImportPreviewRow → Prop} [DecidablePred sel]
    {set : ImportPreviewRow → ImportPreviewRow} (hsel : ∀ q ∈ s.catalog_import_previews, ¬ sel q)
    (h : onPreviews (s.catalog_import_previews.update time sel set) s = .ok (n, s')) : s' = s := by
  rw [Table.update_none hsel] at h
  obtain ⟨t, ht, rfl⟩ := stored_eq_ok.mp h
  obtain ⟨-, rfl⟩ := Prod.mk.inj (Except.ok.inj ht)
  rfl

/-- The write of an action without the claim. -/
theorem mutation_idle (hc : ¬ Claimed r s)
    (h : mutationStatement r a time changes s = .ok (n, s')) : s' = s := by
  cases a with
  | feature e =>
    simp only [mutationStatement, if_neg hc] at h
    split at h
    · exact (Prod.mk.inj (Except.ok.inj h)).2.symm
    · rw [Table.update_none fun f _ hf => hc hf.2.2.2] at h
      obtain ⟨t, ht, rfl⟩ := counted_eq_ok.mp h
      obtain ⟨rfl, rfl⟩ := Prod.mk.inj (Except.ok.inj ht)
      simp
  | plan e =>
    simp only [mutationStatement, if_neg hc] at h
    split at h
    · exact (Prod.mk.inj (Except.ok.inj h)).2.symm
    · rw [Table.update_none fun f _ hf => hc hf.2.2.2] at h
      obtain ⟨t, ht, rfl⟩ := counted_eq_ok.mp h
      obtain ⟨rfl, rfl⟩ := Prod.mk.inj (Except.ok.inj ht)
      simp
  | planFeature e =>
    simp only [mutationStatement, if_neg hc] at h
    split at h
    · exact (Prod.mk.inj (Except.ok.inj h)).2.symm
    · have hupdate := (require_bind_eq_ok.mp h).2
      rw [Table.update_none fun f _ hf => hc hf.2.2] at hupdate
      obtain ⟨t, ht, rfl⟩ := counted_eq_ok.mp hupdate
      obtain ⟨rfl, rfl⟩ := Prod.mk.inj (Except.ok.inj ht)
      simp

theorem action_idle (hc : ¬ Claimed r s) {stmt : Stmt Store} (hs : stmt ∈ actionStatements r a)
    (h : stmt time changes s = .ok (n, s')) : s' = s := by
  simp only [actionStatements, List.mem_cons, List.not_mem_nil, or_false] at hs
  rcases hs with rfl | rfl | rfl
  · exact mutation_idle hc h
  · unfold auditStatement at h
    rw [if_neg fun hs => hc hs.2] at h
    exact (Prod.mk.inj (Except.ok.inj h)).2.symm
  · exact (asserts_ok h).2

theorem closing_idle (hc : ¬ Claimed r s) {stmt : Stmt Store} (hs : stmt ∈ closingStatements r)
    (h : stmt time changes s = .ok (n, s')) : s' = s := by
  have hnone : ∀ q ∈ s.catalog_import_previews, ¬ Held r q := fun q hq hh => hc ⟨q, hq, hh⟩
  simp only [closingStatements, List.mem_cons, List.not_mem_nil, or_false] at hs
  rcases hs with rfl | rfl | rfl | rfl | rfl
  · exact onPreviews_update_none hnone h
  · have hresponse : heldResponse r s = none := by
      unfold heldResponse
      rw [Table.find?_none.mpr hnone]
      rfl
    unfold idempotencyStatement Store.remember at h
    simp only [hresponse, Option.map_none] at h
    exact (Prod.mk.inj (Except.ok.inj h)).2.symm
  · exact (asserts_ok h).2
  · exact onPreviews_update_none (fun q hq hh => hnone q hq hh.1) h
  · exact (asserts_ok h).2

/-- The batch of a claim that counts no row. The token is new, so no row holds
it. -/
theorem importBatch_unclaimed (h : runBatch (importBatch r actions) clock 0 s = .ok (ns, s'))
    (hn : ns.head? = some 0)
    (hfresh : ∀ q ∈ s.catalog_import_previews, q.claim_token ≠ some r.claimToken) : s' = s := by
  have hc : ¬ Claimed r s := fun ⟨q, hq, hh⟩ => hfresh q hq hh.2.1
  unfold importBatch at h
  rw [List.cons_append, List.cons_append] at h
  obtain ⟨n₁, s₁, ms₁, h1, hrest, rfl⟩ := runBatch_cons.mp h
  obtain rfl : n₁ = 0 := Option.some.inj hn
  obtain rfl := claim_zero h1
  have hidle := runBatch_rel (R := fun s s' => ¬ Claimed r s → s' = s) (fun _ _ => rfl)
    (fun h h' hno => by
      obtain rfl := h hno
      exact h' hno)
    (fun stmt hmem time changes s n s' hs hno => ?_) hrest
  · exact hidle hc
  · rcases List.mem_cons.mp hmem with rfl | hmem
    · exact (Prod.mk.inj (Except.ok.inj hs)).2.symm
    · rcases List.mem_append.mp hmem with hmem | hmem
      · obtain ⟨block, hblock, hin⟩ := List.mem_flatten.mp hmem
        obtain ⟨a, -, rfl⟩ := List.mem_map.mp hblock
        exact action_idle hno hin hs
      · exact closing_idle hno hmem hs

/-- The answer of a batch with the claim is the response that it has stored. -/
theorem importResult_committed (h : Committed r actions p s s') (hn : ns.head? ≠ some 0) :
    importResult r s (.ok ns, s') = .ok p.preview_json := by
  have hin : consumed r p ∈ s'.catalog_import_previews := h.previews.put List.mem_cons_self
  have hfind : finalResponse r s' = some (appliedResponse r p) := by
    unfold finalResponse
    rw [Table.find?_eq hin ⟨h.claimable.1, rfl, rfl, by simp [consumed, answered]⟩]
    · rfl
    · exact fun a b ha hb => ha.1.trans hb.1.symm
  simp only [importResult, hn, if_false, hfind]
  rfl

end Licensecc.Catalog
