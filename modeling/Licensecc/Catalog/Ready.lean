-- When the batch of an import succeeds. Each action needs its row to fit between
-- the rows that are there, and a batch whose actions all fit commits.
import Licensecc.Catalog.Commit

open Licensecc.Sql

namespace Licensecc.Catalog

variable {r : ImportRun} {s s' : Store} {time : Int} {changes n : Nat} {clock : Nat → Int}
  {a : ImportAction} {actions : List ImportAction} {p : ImportPreviewRow}

/-! ## One action -/

/-- The row of an action fits: a new row shares no key, and a changed row takes
the place of the row that the action has read. -/
def Ready (s : Store) : ImportAction → Prop
  | .feature e =>
    if e.effect = .create then ∀ f ∈ s.catalog_features, ¬ Schema.clash e.after f
    else ∃ f ∈ s.catalog_features, f.id = e.after.id ∧ featureKey f = featureKey e.after ∧
      setFeature e.after f = e.after
  | .plan e =>
    if e.effect = .create then ∀ p ∈ s.catalog_plans, ¬ Schema.clash e.after p
    else ∃ p ∈ s.catalog_plans, p.id = e.after.id ∧ planKey p = planKey e.after ∧
      setPlan e.after p = e.after
  | .planFeature e => s.Linked e.after ∧
    (∀ f ∈ s.catalog_plan_features, ¬ f.sameRow e.after → ¬ e.after.sameAddon f) ∧
    if e.effect = .create then ∀ f ∈ s.catalog_plan_features, ¬ f.sameRow e.after
    else ∃ f ∈ s.catalog_plan_features, f.project = e.after.project ∧ f.sameRow e.after ∧
      setPlanFeature e.after f = e.after

theorem insert_succeeds {ρ : Type} [Schema ρ] {t : Table ρ} {row : ρ}
    (hbefore : Schema.beforeInsert t.rows row = none) (hcheck : Schema.check row)
    (h : ∀ x ∈ t, ¬ Schema.clash row x) : ∃ t', inserted (t.insert row) = .ok (1, t') ∧ row ∈ t' := by
  obtain ⟨t', ht⟩ := Table.insert_ok hbefore hcheck h
  exact ⟨t', inserted_eq_ok.mpr ⟨rfl, ht⟩, (Table.mem_of_insert ht).mpr (.inl rfl)⟩

/-- An update that succeeds leaves the row that it sets. -/
theorem update_succeeds {ρ : Type} [Schema ρ] {t : Table ρ} (time : Int) (sel : ρ → Prop)
    [DecidablePred sel] {set : ρ → ρ} {row after : ρ} (hrow : row ∈ t) (hself : Schema.clash row row) (hs : sel row)
    (hone : ∀ x ∈ t, sel x → x = row) (hset : set row = after)
    (hraise : Schema.beforeUpdate time row after = none) (hcheck : Schema.check after)
    (hclash : ∀ x ∈ t, x ≠ row → ¬ Schema.clash after x) :
    ∃ n t', t.update time sel set = .ok (n, t') ∧ after ∈ t' := by
  subst hset
  obtain ⟨t', ht⟩ := update_one_ok hrow hself hs hone hraise hcheck hclash
  refine ⟨_, t', ht, (Table.mem_of_update ht).mpr ⟨row, hrow, ?_⟩⟩
  rw [if_pos hs]

theorem mutation_feature_succeeds {e : RowEffect CatalogFeature} (hc : Claimed r s)
    (h : Ready s (.feature e)) : ∃ n s', mutationStatement r (.feature e) time changes s = .ok (n, s') ∧
      Stored (.feature e) s' := by
  simp only [Ready] at h
  simp only [mutationStatement]
  by_cases he : e.effect = .create
  · rw [if_pos he] at h
    obtain ⟨t, ht, hin⟩ := insert_succeeds rfl trivial h
    rw [if_pos he, if_pos hc]
    exact ⟨1, _, counted_eq_ok.mpr ⟨t, ht, rfl⟩, hin⟩
  · rw [if_neg he] at h
    obtain ⟨f, hf, hid, hkey, hset⟩ := h
    have hother : ∀ g ∈ s.catalog_features, g ≠ f → ¬ Schema.clash e.after g := by
      intro g hg hne hclash
      refine hne (Table.unique hg hf ?_)
      rcases hclash with h | h
      · exact .inl (h.symm.trans hid.symm)
      · obtain ⟨h1, h2⟩ := Prod.mk.inj hkey
        exact .inr ⟨h.1.symm.trans h1.symm, h.2.symm.trans h2.symm⟩
    obtain ⟨h1, h2⟩ := Prod.mk.inj hkey
    obtain ⟨n, t, ht, hin⟩ := update_succeeds time (fun f => f.id = e.after.id ∧
        f.project = e.after.project ∧ f.feature_key = e.after.feature_key ∧ Claimed r s)
      hf (feature_clash rfl) ⟨hid, h1, h2, hc⟩
      (fun g hg hsel => Table.unique hg hf (.inl (hsel.1.trans hid.symm))) hset rfl trivial hother
    rw [if_neg he]
    exact ⟨n, _, counted_eq_ok.mpr ⟨t, ht, rfl⟩, hin⟩

theorem mutation_plan_succeeds {e : RowEffect CatalogPlan} (hc : Claimed r s)
    (h : Ready s (.plan e)) : ∃ n s', mutationStatement r (.plan e) time changes s = .ok (n, s') ∧
      Stored (.plan e) s' := by
  simp only [Ready] at h
  simp only [mutationStatement]
  by_cases he : e.effect = .create
  · rw [if_pos he] at h
    obtain ⟨t, ht, hin⟩ := insert_succeeds rfl trivial h
    rw [if_pos he, if_pos hc]
    exact ⟨1, _, counted_eq_ok.mpr ⟨t, ht, rfl⟩, hin⟩
  · rw [if_neg he] at h
    obtain ⟨f, hf, hid, hkey, hset⟩ := h
    obtain ⟨h1, h2⟩ := Prod.mk.inj hkey
    have hother : ∀ g ∈ s.catalog_plans, g ≠ f → ¬ Schema.clash e.after g := by
      intro g hg hne hclash
      refine hne (Table.unique hg hf ?_)
      rcases hclash with h | h
      · exact .inl (h.symm.trans hid.symm)
      · exact .inr ⟨h.1.symm.trans h1.symm, h.2.symm.trans h2.symm⟩
    obtain ⟨n, t, ht, hin⟩ := update_succeeds time (fun p => p.id = e.after.id ∧
        p.project = e.after.project ∧ p.plan_key = e.after.plan_key ∧ Claimed r s)
      hf (plan_clash rfl) ⟨hid, h1, h2, hc⟩
      (fun g hg hsel => Table.unique hg hf (.inl (hsel.1.trans hid.symm))) hset rfl trivial hother
    rw [if_neg he]
    exact ⟨n, _, counted_eq_ok.mpr ⟨t, ht, rfl⟩, hin⟩

theorem mutation_planFeature_succeeds {e : RowEffect CatalogPlanFeature} (hc : Claimed r s)
    (h : Ready s (.planFeature e)) :
    ∃ n s', mutationStatement r (.planFeature e) time changes s = .ok (n, s') ∧
      Stored (.planFeature e) s' := by
  obtain ⟨hlinked, haddon, h⟩ := h
  simp only [mutationStatement]
  by_cases he : e.effect = .create
  · rw [if_pos he] at h
    have hclash : ∀ f ∈ s.catalog_plan_features, ¬ Schema.clash e.after f := by
      rintro f hf (hsame | hsame)
      · exact h f hf ⟨hsame.1.symm, hsame.2.symm⟩
      · exact haddon f hf (h f hf) hsame
    obtain ⟨t, ht, hin⟩ := insert_succeeds rfl trivial hclash
    rw [if_pos he, if_pos hc]
    exact ⟨1, _, require_bind_eq_ok.mpr ⟨hlinked, counted_eq_ok.mpr ⟨t, ht, rfl⟩⟩, hin⟩
  · rw [if_neg he] at h
    obtain ⟨f, hf, hproject, hrow, hset⟩ := h
    have hone : ∀ g ∈ s.catalog_plan_features, g.sameRow e.after → g = f := fun g hg hs =>
      Table.unique hg hf (.inl ⟨hs.1.trans hrow.1.symm, hs.2.trans hrow.2.symm⟩)
    have hother : ∀ g ∈ s.catalog_plan_features, g ≠ f → ¬ Schema.clash e.after g := by
      rintro g hg hne (hsame | hsame)
      · exact hne (hone g hg ⟨hsame.1.symm, hsame.2.symm⟩)
      · exact haddon g hg (fun hs => hne (hone g hg hs)) hsame
    obtain ⟨n, t, ht, hin⟩ := update_succeeds time (fun f => f.project = e.after.project ∧
        f.sameRow e.after ∧ Claimed r s) hf (planFeature_clash rfl) ⟨hproject, hrow, hc⟩
      (fun g hg hsel => hone g hg hsel.2.1) hset rfl trivial hother
    have hlinks : ∀ g ∈ s.catalog_plan_features, (g.project = e.after.project ∧
        g.sameRow e.after ∧ Claimed r s) → s.Linked (setPlanFeature e.after g) := by
      intro g hg hsel
      obtain rfl := hone g hg hsel.2.1
      rw [hset]
      exact hlinked
    rw [if_neg he]
    exact ⟨n, _, require_bind_eq_ok.mpr ⟨hlinks, counted_eq_ok.mpr ⟨t, ht, rfl⟩⟩, hin⟩

theorem mutation_succeeds (hc : Claimed r s) (h : Ready s a) :
    ∃ n s', mutationStatement r a time changes s = .ok (n, s') ∧ Stored a s' := by
  cases a with
  | feature e => exact mutation_feature_succeeds hc h
  | plan e => exact mutation_plan_succeeds hc h
  | planFeature e => exact mutation_planFeature_succeeds hc h

/-- The statements of an action that fits. -/
theorem action_succeeds (hc : Claimed r s) (h : Ready s a) :
    ∃ ns s', runBatch (actionStatements r a) clock changes s = .ok (ns, s') := by
  obtain ⟨n, s₁, h1, hstored⟩ : ∃ n s₁, mutationStatement r a (clock 0) changes s = .ok (n, s₁) ∧
    Stored a s₁ := mutation_succeeds hc h
  have hc₁ : Claimed r s₁ := (claimed_of_previews (mutation_ok hc h1).previews).mpr hc
  have h2 : ∀ time changes, auditStatement r a time changes s₁ =
      .ok (1, { s₁ with catalog_events := importEvent r a :: s₁.catalog_events }) := by
    intro time changes
    unfold auditStatement
    rw [if_pos ⟨hstored, hc₁⟩]
  have h3 : ∀ time changes, assertionStatement r a time changes
      { s₁ with catalog_events := importEvent r a :: s₁.catalog_events } =
        .ok (changes, { s₁ with catalog_events := importEvent r a :: s₁.catalog_events }) := by
    intro time changes
    unfold assertionStatement asserts
    refine if_pos (.inr ⟨?_, importEvent r a, List.mem_cons_self, ⟨rfl, rfl, rfl, rfl, rfl, rfl, rfl⟩⟩)
    cases a <;> exact hstored
  apply runBatch_cons_ok h1
  apply runBatch_cons_ok (h2 _ _)
  apply runBatch_cons_ok (h3 _ _)
  exact runBatch_nil_ok

/-! ## All actions -/

/-- The statements of actions that all fit, each after the actions before it. -/
theorem actions_succeed (hc : Claimed r s)
    (h : ∀ before a after, actions = before ++ a :: after → ∀ s', ActionsDone r before s s' →
      Ready s' a) :
    ∃ ns s', runBatch (actions.map (actionStatements r)).flatten clock changes s = .ok (ns, s') := by
  suffices hall : ∀ rest before, actions = before ++ rest → ∀ s₁ clock changes,
      ActionsDone r before s s₁ →
      ∃ ns s', runBatch (rest.map (actionStatements r)).flatten clock changes s₁ = .ok (ns, s') from
    hall actions [] rfl s clock changes (ActionsDone.nil r s)
  intro rest
  induction rest with
  | nil =>
    intro before _ s₁ clock changes _
    exact runBatch_nil_ok
  | cons a rest ih =>
    intro before heq s₁ clock changes hdone
    have hc₁ : Claimed r s₁ := (claimed_of_previews hdone.previews).mpr hc
    rw [List.map_cons, List.flatten_cons]
    refine runBatch_append_ok (action_succeeds hc₁ (h before a rest heq s₁ hdone)) ?_
    intro ns s₂ hrun clock' changes'
    refine ih (before ++ [a]) ?_ s₂ clock' changes' (hdone.append (action_ok hc₁ hrun).1)
    rw [heq, List.append_assoc, List.singleton_append]

/-! ## The closing statements -/

/-- No response is stored under the key of the request. -/
def KeyUnused (r : ImportRun) (s : Store) : Prop :=
  ¬ ∃ i ∈ s.responses, i.scope = importScope r.actor ∧ i.idempotency_key = r.idempotencyKey

/-- An update of the held preview that keeps its id. -/
theorem preview_update_ok {q : ImportPreviewRow} {sel : ImportPreviewRow → Prop} [DecidablePred sel]
    {set : ImportPreviewRow → ImportPreviewRow} (hq : q ∈ s.catalog_import_previews) (hs : sel q)
    (hone : ∀ x, sel x → x.id = q.id) (hid : (set q).id = q.id) :
    ∃ n t, n ≠ 0 ∧ s.catalog_import_previews.update time sel set = .ok (n, t) := by
  obtain ⟨t, ht⟩ : ∃ t, s.catalog_import_previews.update time sel set =
      .ok (s.catalog_import_previews.count sel, t) := by
    refine update_one_ok hq rfl hs (fun x hx hsx => Table.unique hx hq (hone x hsx)) rfl trivial ?_
    exact fun x hx hne hclash => hne (Table.unique hx hq (hclash.symm.trans hid))
  exact ⟨_, t, fun hzero => Table.count_eq_zero.mp hzero q hq hs, ht⟩

theorem closing_succeeds (hp : claim r p ∈ s.catalog_import_previews) (hheld : Held r (claim r p))
    (hkey : KeyUnused r s) :
    ∃ ns s', runBatch (closingStatements r) clock changes s = .ok (ns, s') := by
  have hsel : ∀ q, Held r q → q.id = p.id := fun q hq => hq.1.trans hheld.1.symm
  -- the response
  obtain ⟨n₁, t₁, -, ht₁⟩ : ∃ n t, n ≠ 0 ∧ s.catalog_import_previews.update (clock 0) (Held r)
      (fun q => { q with applied_response_json := some (appliedResponse r q) }) = .ok (n, t) :=
    preview_update_ok hp hheld hsel rfl
  have hput₁ := puts_of_update_one preview_clash ht₁ hp hheld hsel rfl
  have hin₁ : answered r p ∈ t₁ := hput₁.put List.mem_cons_self
  let s₁ : Store := { s with catalog_import_previews := t₁ }
  have h1 : responseStatement r (clock 0) changes s = .ok (n₁, s₁) := by
    unfold responseStatement
    exact stored_eq_ok.mpr ⟨t₁, ht₁, rfl⟩
  -- the row of the idempotency key
  have hresponse : heldResponse r s₁ = some (appliedResponse r p) :=
    find_held (q := answered r p) hin₁ hheld
  obtain ⟨u, hu⟩ : ∃ u, s₁.responses.insert ⟨importScope r.actor, r.idempotencyKey,
      .catalogImport (appliedResponse r p), r.now⟩ = .ok u := by
    refine Table.insert_ok rfl trivial fun i hi hclash => hkey ⟨i, hi, ?_⟩
    exact ⟨hclash.1.symm, hclash.2.symm⟩
  let s₂ : Store := { s₁ with responses := u }
  have h2 : ∀ time n, idempotencyStatement r time n s₁ = .ok (1, s₂) := by
    intro time n
    unfold idempotencyStatement Store.remember
    simp only [hresponse, Option.map_some]
    refine (if_neg hkey).trans ?_
    exact stored_eq_ok.mpr ⟨u, inserted_eq_ok.mpr ⟨rfl, hu⟩, rfl⟩
  have h3 : ∀ time n, idempotencyAssertionStatement r time n s₂ = .ok (n, s₂) := by
    intro time n
    refine if_pos (.inr ⟨_, (Table.mem_of_insert hu).mpr (.inl rfl), rfl, rfl, ?_⟩)
    have hresponse₂ : heldResponse r s₂ = some (appliedResponse r p) :=
      find_held (q := answered r p) hin₁ hheld
    rw [hresponse₂]
    rfl
  -- the preview
  obtain ⟨n₄, t₄, -, ht₄⟩ : ∃ n t, n ≠ 0 ∧ s₂.catalog_import_previews.update (clock 3)
      (fun q => Held r q ∧ q.applied_response_json ≠ none)
      (fun q => { q with consumed_at := some r.now }) = .ok (n, t) :=
    preview_update_ok hin₁ ⟨hheld, by simp [answered]⟩ (fun q hq => hsel q hq.1) rfl
  have hput₄ := puts_of_update_one preview_clash ht₄ hin₁ ⟨hheld, by simp [answered]⟩
    (fun q hq => hsel q hq.1) rfl
  have hin₄ : consumed r p ∈ t₄ := hput₄.put List.mem_cons_self
  let s₄ : Store := { s₂ with catalog_import_previews := t₄ }
  have h4 : ∀ n, consumeStatement r (clock 3) n s₂ = .ok (n₄, s₄) := by
    intro n
    unfold consumeStatement
    exact stored_eq_ok.mpr ⟨t₄, ht₄, rfl⟩
  have h5 : ∀ time n, finalResponseStatement r time n s₄ = .ok (n, s₄) := by
    intro time n
    refine if_pos (.inl ?_)
    have hfind : finalResponse r s₄ = some (appliedResponse r p) := by
      unfold finalResponse
      rw [Table.find?_eq (t := s₄.catalog_import_previews) hin₄
        ⟨hheld.1, rfl, rfl, by simp [consumed, answered]⟩]
      · rfl
      · exact fun a b ha hb => ha.1.trans hb.1.symm
    rw [hfind]
    simp
  apply runBatch_cons_ok h1
  apply runBatch_cons_ok (h2 _ _)
  apply runBatch_cons_ok (h3 _ _)
  apply runBatch_cons_ok (h4 _)
  apply runBatch_cons_ok (h5 _ _)
  exact runBatch_nil_ok

/-! ## The batch -/

/-- The batch of an import of a claimable preview, each of whose actions fits after
the actions before it, commits. -/
theorem importBatch_succeeds (hp : p ∈ s.catalog_import_previews) (hc : Claimable r s p)
    (hkey : KeyUnused r s)
    (h : ∀ before a after, actions = before ++ a :: after → ∀ t s',
      ActionsDone r before { s with catalog_import_previews := t } s' → Ready s' a) :
    ∃ ns s', runBatch (importBatch r actions) clock 0 s = .ok (ns, s') ∧ ns.head? ≠ some 0 := by
  have hsel : ∀ q, Claimable r s q → q.id = p.id := fun q hq => hq.1.trans hc.1.symm
  obtain ⟨n, t, hn, ht⟩ : ∃ n t, n ≠ 0 ∧ s.catalog_import_previews.update (clock 0) (Claimable r s)
      (claim r) = .ok (n, t) := preview_update_ok hp hc hsel rfl
  have hput := puts_of_update_one preview_clash ht hp hc hsel rfl
  have hin : claim r p ∈ t := hput.put List.mem_cons_self
  have hheld : Held r (claim r p) := ⟨hc.1, rfl, hc.2.2.2.1⟩
  let s₁ : Store := { s with catalog_import_previews := t }
  have h1 : claimStatement r (clock 0) 0 s = .ok (n, s₁) := by
    unfold claimStatement
    exact stored_eq_ok.mpr ⟨t, ht, rfl⟩
  have hc₁ : Claimed r s₁ := ⟨_, hin, hheld⟩
  obtain ⟨ms, s', hrest⟩ : ∃ ms s', runBatch ((actions.map (actionStatements r)).flatten ++
      closingStatements r) (fun i => clock (i + 2)) n s₁ = .ok (ms, s') := by
    refine runBatch_append_ok (actions_succeed hc₁ fun before a after heq => h before a after heq t) ?_
    intro ns s₂ hrun clock' changes'
    have hdone := actions_ok hc₁ hrun
    refine closing_succeeds ?_ hheld ?_
    · rw [hdone.previews]
      exact hin
    · unfold KeyUnused
      rw [hdone.responses]
      exact hkey
  refine ⟨n :: n :: ms, s', ?_, by simpa using hn⟩
  unfold importBatch
  rw [List.cons_append, List.cons_append]
  refine runBatch_cons.mpr ⟨n, s₁, n :: ms, h1, ?_, rfl⟩
  exact runBatch_cons.mpr ⟨n, s₁, ms, rfl, hrest, rfl⟩

end Licensecc.Catalog
