-- The law of live codes. A request retires the older codes of its customer in one
-- statement and inserts the new one in another, so two requests that overlap can leave
-- two live codes. A customer has one live code whenever no two inserts follow each other.
import Licensecc.Portal.OneTime

open Licensecc.Sql Licensecc.Conc

namespace Licensecc.Portal

variable {P : Platform} {w : PortalWorld} {log : List PortalEntry} {e : PortalEntry}
  {customerId : String}

/-! ## Codes come and go -/

/-- The write inserts a code of the customer. -/
def InsertsCode (customerId : String) (e : PortalEntry) : Prop :=
  e.result = .done ∧ ∃ row, e.write = .insertOtp row ∧ row.customer_id = customerId

/-- The write retires the code with this number: it supersedes the codes of the customer, it
redeems this one, or it gives the customer another password. -/
def Retires (customerId : String) (row : Nat) (e : PortalEntry) : Prop :=
  (∃ now, e.write = .supersedeOtp customerId now) ∨
  (∃ r ∈ e.before.portal_otp, r.inserted = row ∧ Claims e r) ∨ WritesPassword customerId e

/-- Each code of a customer was retired before the next one was inserted. -/
def InTurn (log : List PortalEntry) : Prop :=
  ∀ i j first second customerId, i < j → log[i]? = some first → log[j]? = some second →
    InsertsCode customerId first → InsertsCode customerId second →
      ∃ k e, i < k ∧ k < j ∧ log[k]? = some e ∧ Retires customerId i e

/-! ## One write -/

/-- What the log says of a code. -/
structure LiveFact (w : PortalWorld) (r : PortalOtp) : Prop where
  customer : ∃ c ∈ w.db.customers, c.id = r.customer_id
  inserted : ∃ e, w.log[r.inserted]? = some e ∧ InsertsCode r.customer_id e
  live : r.consumed_at = none → ∀ k e, r.inserted < k → w.log[k]? = some e →
    ¬ Retires r.customer_id r.inserted e

structure LiveCodes (w : PortalWorld) : Prop where
  rows : ∀ r ∈ w.db.portal_otp, LiveFact w r
  distinct : (w.db.portal_otp.rows.map (·.inserted)).Nodup

theorem LiveFact.lt {r : PortalOtp} (h : LiveFact w r) : r.inserted < w.log.length := by
  obtain ⟨e, he, -⟩ := h.inserted
  exact (List.getElem?_eq_some_iff.mp he).1

/-- A code that a write retires is consumed after it. -/
theorem OtpStep.retired {fresh : String} {write : PortalWrite} {r r' : PortalOtp}
    (hfresh : Fresh fresh w) (hc : ∃ c ∈ w.db.customers, c.id = r.customer_id)
    (hunique : ∀ a ∈ w.db.portal_otp, a.inserted = r.inserted → a = r)
    (hstep : OtpStep (ran P fresh w.log.length w.db write) r r')
    (hr' : r' ∈ (ran P fresh w.log.length w.db write).after.portal_otp)
    (h : Retires r.customer_id r.inserted (ran P fresh w.log.length w.db write)) :
    r'.consumed_at ≠ none := by
  rcases h with ⟨now, hw⟩ | ⟨a, ha, hnum, hclaims⟩ | hw
  · obtain rfl : write = .supersedeOtp r.customer_id now := hw
    obtain ⟨a, -, rfl⟩ := mem_consumeOtp.mp hr'
    intro hn
    have hsel : a.customer_id = r.customer_id ∧ a.consumed_at = none := by
      refine ⟨hstep.customer, ?_⟩
      by_contra hne
      simp [hne] at hn
    simp [hsel] at hn
  · obtain rfl := hunique a ha hnum
    exact hstep.claims hclaims
  · exact (killed_of_written hfresh hc hw).codes r' hr' hstep.customer

theorem liveFact_insert {fresh : String} {row r : PortalOtp} (h : LiveFact w r) :
    LiveFact (execPortal P fresh (.insertOtp row) w).2 r := by
  obtain ⟨e, he, hins⟩ := h.inserted
  refine ⟨customer_step h.customer, ⟨e, getElem?_concat_some.mpr (.inl he), hins⟩,
    fun hn k e hk he => ?_⟩
  rcases getElem?_concat_some.mp he with he | ⟨-, rfl⟩
  · exact h.live hn k e hk he
  · rintro (⟨now, hw⟩ | ⟨a, -, -, hclaims⟩ | hw)
    · exact nomatch hw
    · exact hclaims
    · exact (of_writesPassword hw).1

theorem liveCodes_step {fresh : String} {write : PortalWrite} (hfresh : Fresh fresh w)
    (h : LiveCodes w) : LiveCodes (execPortal P fresh write w).2 := by
  have hlen : (execPortal P fresh write w).2.log.length = w.log.length + 1 := by simp [execPortal]
  rcases @otp_step P fresh w.log.length w.db write with ⟨row, rfl, hcustomer, hdone, hrows⟩ | hsucc
  · have hmem : (execPortal P fresh (.insertOtp row) w).2.db.portal_otp.rows = _ := hrows
    refine ⟨fun r hr => ?_, ?_⟩
    · rw [Table.mem_def, hmem] at hr
      rcases List.mem_cons.mp hr with rfl | hr
      · refine ⟨customer_step hcustomer, ⟨_, getElem?_concat_some.mpr (.inr ⟨rfl, rfl⟩),
          hdone, row, rfl, rfl⟩, fun _ k e hk he => ?_⟩
        have hlt := (List.getElem?_eq_some_iff.mp he).1
        have hk' : w.log.length < k := hk
        omega
      · exact liveFact_insert (h.rows r hr)
    · rw [hmem, List.map_cons]
      refine List.nodup_cons.mpr ⟨fun hin => ?_, h.distinct⟩
      obtain ⟨r, hr, hnum⟩ := List.mem_map.mp hin
      have hlt := (h.rows r hr).lt
      simp only at hnum
      omega
  · refine ⟨fun r' hr' => ?_, h.distinct.sublist hsucc.numbers⟩
    obtain ⟨r, hr, hnum, hstep⟩ := hsucc.row r' hr'
    have hfact := h.rows r hr
    obtain ⟨e, he, hins⟩ := hfact.inserted
    have hid : r'.inserted = r.inserted := hnum
    have hplace : (execPortal P fresh write w).2.log[r'.inserted]? = some e := by
      rw [hid]
      exact getElem?_concat_some.mpr (.inl he)
    refine ⟨?_, ⟨e, hplace, ?_⟩, fun hn k e hk he => ?_⟩
    · rw [hstep.customer]
      exact customer_step hfact.customer
    · rw [hstep.customer]
      exact hins
    · rw [hstep.customer, hid]
      rw [hid] at hk
      rcases getElem?_concat_some.mp he with he | ⟨rfl, rfl⟩
      · exact hfact.live (hstep.consumed hn) k e hk he
      · intro hretires
        exact hstep.retired hfresh hfact.customer (fun a ha hab =>
          List.inj_on_of_nodup_map h.distinct ha hr hab) hr' hretires hn

/-! ## Every run -/

theorem liveCodes_opened (h : Opened w) : LiveCodes w where
  rows r hr := by
    rw [Table.mem_def, h.otp] at hr
    exact nomatch hr
  distinct := by
    rw [h.otp]
    exact List.nodup_nil

/-- The code was not consumed and did not expire. -/
def PortalOtp.Open (now : Int) (r : PortalOtp) : Prop := r.consumed_at = none ∧ now < r.expires_at

instance (now : Int) (r : PortalOtp) : Decidable (r.Open now) :=
  inferInstanceAs (Decidable (_ ∧ _))

/-- No customer has two open codes. -/
def OneLive (now : Int) (db : PortalDb) : Prop :=
  ∀ a ∈ db.portal_otp, ∀ b ∈ db.portal_otp, a.customer_id = b.customer_id → a.Open now →
    b.Open now → a = b

theorem LiveCodes.oneLive (now : Int) (h : LiveCodes w) (hturn : InTurn w.log) :
    OneLive now w.db := by
  -- Of two live codes the one that was inserted first was retired before the other.
  have hlt : ∀ a ∈ w.db.portal_otp, ∀ b ∈ w.db.portal_otp, a.customer_id = b.customer_id →
      a.consumed_at = none → ¬ a.inserted < b.inserted := by
    intro a ha b hb hcustomer hlive hlt
    obtain ⟨first, hfirst, hins⟩ := (h.rows a ha).inserted
    obtain ⟨second, hsecond, hins'⟩ := (h.rows b hb).inserted
    rw [← hcustomer] at hins'
    obtain ⟨k, e, hk, -, he, hretires⟩ := hturn _ _ _ _ _ hlt hfirst hsecond hins hins'
    exact (h.rows a ha).live hlive k e hk he hretires
  intro a ha b hb hcustomer hlive hlive'
  have h1 := hlt a ha b hb hcustomer hlive.1
  have h2 := hlt b hb a ha hcustomer.symm hlive'.1
  exact List.inj_on_of_nodup_map h.distinct ha hb (by omega)

/-- In every run in which each code is retired before the next one of its customer is
inserted, no customer ever has two live codes. -/
theorem one_live_code_of_inTurn (P : Platform) (w : PortalWorld)
    (c : Config PortalWorld PortalWrite PortalResult PortalCode) (now : Int) (h0 : Opened w)
    (h : (portalSystem P).Reach ⟨w, []⟩ c) (hturn : InTurn c.state.log) :
    OneLive now c.state.db := by
  have hcodes := System.reach_state (S := portalSystem P)
    (fun _ _ _ hfresh h => liveCodes_step hfresh h) h (liveCodes_opened h0)
  exact hcodes.oneLive now hturn

def inserts (e : PortalEntry) : Bool :=
  match e.write with
  | .insertOtp _ => true
  | _ => false

theorem InsertsCode.inserts {i : Nat} (h : InsertsCode customerId e) (he : log[i]? = some e) :
    (log.map Portal.inserts)[i]? = some true := by
  obtain ⟨-, row, hw, -⟩ := h
  rw [List.getElem?_map, he]
  simp [Portal.inserts, hw]

/-- One request for a code. -/
def oneRequest : List PortalChoice :=
  [.start (asksForCode "otp-1" [1, 2, 3, 4]), .write 0 (drawn 0), .write 0 (drawn 1),
    .write 0 (drawn 2), .write 0 (drawn 3), .read 0, .write 0 (drawn 4), .write 0 (drawn 5)]

set_option maxRecDepth 20000 in
theorem oneRequest_live : ∃ c : Config PortalWorld PortalWrite PortalResult PortalCode,
    c.state.db.portal_otp.rows.length = 1 ∧ OneLive 1000 c.state.db := by
  have hplay : ((portalSystem plainPlatform).playAll ⟨openedWorld, []⟩ oneRequest).map
      (fun c => (c.state.db.portal_otp.rows.length, c.state.log.map inserts)) =
      some (1, [false, false, false, false, false, true]) := by decide
  obtain ⟨c, hc, hshape⟩ := Option.map_eq_some_iff.mp hplay
  obtain ⟨hlen, hinserts⟩ := Prod.mk.inj hshape
  have hreach := System.reach_of_playAll hc ⟨.requestOtp .., trivial⟩
  refine ⟨c, hlen, one_live_code_of_inTurn _ _ c 1000 openedWorld_opened hreach ?_⟩
  intro i j first second customerId hij hi hj hfirst _
  -- The first insert is the last write.
  have hj' := (List.getElem?_eq_some_iff.mp hj).1
  have hi' := hfirst.inserts hi
  rw [← List.length_map inserts, hinserts] at hj'
  rw [hinserts] at hi'
  obtain _ | _ | _ | _ | _ | i := i
  all_goals simp at hi' hj'
  omega

/-! ## Two requests that overlap -/

/-- Both requests supersede the older codes before either inserts its own. -/
def overlappingRequests : List PortalChoice :=
  [.start (asksForCode "otp-1" [1, 2, 3, 4]), .write 0 (drawn 0), .write 0 (drawn 1),
    .write 0 (drawn 2), .write 0 (drawn 3), .read 0,
    .start (asksForCode "otp-2" [5, 6, 7, 8]), .write 0 (drawn 4), .write 0 (drawn 5), .read 0,
    .write 0 (drawn 6), .write 1 (drawn 7), .write 1 (drawn 8), .write 0 (drawn 9)]

/-- The open codes of the database with their customers. -/
def openCodes (now : Int) (db : PortalDb) : List (String × String) :=
  (db.portal_otp.rows.filter (·.Open now)).map fun r => (r.id, r.customer_id)

set_option maxRecDepth 20000 in
theorem overlappingRequests_reach : ∃ c, (portalSystem plainPlatform).Reach ⟨openedWorld, []⟩ c ∧
    openCodes 1000 c.state.db = [("otp-2", "cust-1"), ("otp-1", "cust-1")] := by
  have hplay : ((portalSystem plainPlatform).playAll ⟨openedWorld, []⟩ overlappingRequests).map
      (fun c => openCodes 1000 c.state.db) = some [("otp-2", "cust-1"), ("otp-1", "cust-1")] := by
    decide +kernel
  obtain ⟨c, hc, hcodes⟩ := Option.map_eq_some_iff.mp hplay
  exact ⟨c, System.reach_of_playAll hc ⟨.requestOtp .., .requestOtp .., trivial⟩, hcodes⟩

theorem of_openCodes {now : Int} {db : PortalDb} {id customerId : String}
    (h : (id, customerId) ∈ openCodes now db) :
    ∃ r ∈ db.portal_otp, r.id = id ∧ r.customer_id = customerId ∧ r.Open now := by
  obtain ⟨r, hr, heq⟩ := List.mem_map.mp h
  obtain ⟨rfl, rfl⟩ := Prod.mk.inj heq
  obtain ⟨hr, hlive⟩ := List.mem_filter.mp hr
  exact ⟨r, hr, rfl, rfl, of_decide_eq_true hlive⟩

/-- Two requests for a code that overlap leave the customer with two live codes. -/
theorem two_live_codes_of_overlap : ¬ ∀ (P : Platform) (w : PortalWorld)
    (c : Config PortalWorld PortalWrite PortalResult PortalCode) (now : Int), Opened w →
      (portalSystem P).Reach ⟨w, []⟩ c → OneLive now c.state.db := by
  intro h
  obtain ⟨c, hreach, hcodes⟩ := overlappingRequests_reach
  obtain ⟨a, ha, hid, hcustomer, hlive⟩ := of_openCodes
    (hcodes ▸ List.mem_cons_self : ("otp-2", "cust-1") ∈ openCodes 1000 c.state.db)
  obtain ⟨b, hb, hid', hcustomer', hlive'⟩ := of_openCodes
    (hcodes ▸ List.mem_cons_of_mem _ List.mem_cons_self :
      ("otp-1", "cust-1") ∈ openCodes 1000 c.state.db)
  obtain rfl := h _ _ c 1000 openedWorld_opened hreach a ha b hb (hcustomer.trans hcustomer'.symm)
    hlive hlive'
  exact absurd (hid.symm.trans hid') (by decide)

end Licensecc.Portal
