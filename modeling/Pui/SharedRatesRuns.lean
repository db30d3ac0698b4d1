import Pui.Conservation
import Pui.Issued
import Pui.SharedRates

/-!
# Enforced rates stay within what is outstanding

A runtime only ever moves to a later revision of a share.
-/

namespace Pui

open Crash Crash.Prog Guard Table Governor List Option Bool

namespace SharedRates

variable {issued : String → Nat → Option Rates} {net : Net} {db : Fleet} {holder : FleetRateShare → Nat}
  {old new : Option FleetRateShare} {share : FleetRateShare} {db' : Fleet} {n r id : String} {hashes : Hashes}
  {intents : List AuthorityIntent} {batch : AuthorityUpdateBatch} {g : FleetGrant} {pool : FleetRateBudget}

def Held (issued : String → Nat → Option Rates) (shares : Table String FleetRateShare) (nodeID runtimeID id : String)
    (a : Authority) : Prop :=
  issued id a.revision = some ⟨a.upload, a.download⟩ ∧
    ∃ share, shares.get? id = some share ∧ share.nodeID = nodeID ∧ share.runtimeID = runtimeID

def HeldPayload (issued : String → Nat → Option Rates) (shares : Table String FleetRateShare) (nodeID : String)
    (payload : Payload) : Prop :=
  ∀ b, payload.decode = some b → ∀ r ∈ b.runtimes, ∀ g ∈ r.grants,
    Held issued shares nodeID r.id g.id g.policy.authority ∧ g.rateRevision = g.policy.authorityRevision

def holds (row : Option Record) : Nat := row.elim 0 fun r => r.grant.policy.authorityRevision

def Law (issued : String → Nat → Option Rates) (shares : Table String FleetRateShare) (nodeID runtimeID : String)
    (floor : String → Nat) (id : String) (row : Option Record) : Prop :=
  (∀ r, row = some r → Held issued shares nodeID runtimeID id r.grant.policy.authority) ∧ floor id ≤ holds row

/-- What the control plane knows of a share whose runtime is at `holder` or later. -/
structure ShareOK (issued : Nat → Option Rates) (holder : Nat) (share : FleetRateShare) : Prop where
  pos : 1 ≤ share.revision
  max : share.revision ≤ maxInt64
  last : issued (uint64 share.revision) = some share.desired
  beyond : ∀ q, uint64 share.revision < q → issued q = none
  held : holder ≤ uint64 share.revision
  desired : share.desired.validate = .ok ()
  outstanding : share.outstanding.validate = .ok ()
  covers : Issued.Covers issued holder share.outstanding

structure Room (db : Fleet) (budgetID : String) (budget : FleetRateBudget) : Prop where
  valid : budget.desired.validate = .ok ()
  upload : fitsRates budget.desired.upload ((db.sharesOf budgetID).map (·.2.outstanding.upload)) = true
  download : fitsRates budget.desired.download ((db.sharesOf budgetID).map (·.2.outstanding.download)) = true

def Behind (db : Fleet) (nodeID : String) (revision : Int) : Prop :=
  ∃ node, db.nodes.get? nodeID = some node ∧ revision ≤ node.desiredRevision

structure Inv (issued : String → Nat → Option Rates) (net : Net) : Prop where
  shares : ∀ id share, net.master.rateShares.get? id = some share →
    ShareOK (issued id) (holds (net.row share.nodeID share.runtimeID id)) share
  fresh : ∀ id, net.master.rateShares.get? id = none → ∀ q, issued id q = none
  budgets : ∀ id budget, net.master.rateBudgets.get? id = some budget → Room net.master id budget
  pools : ∀ id share, net.master.rateShares.get? id = some share →
    ∃ budget, net.master.rateBudgets.get? share.budgetID = some budget
  range : ∀ id node, net.master.nodes.get? id = some node → 0 ≤ node.desiredRevision ∧ node.desiredRevision ≤ maxInt64
  rows : ∀ id revision d, net.master.deployments.get? (id, revision) = some d →
    HeldPayload issued net.master.rateShares id d.payload ∧ Behind net.master id revision
  deployments : ∀ d ∈ net.deployments, HeldPayload issued net.master.rateShares d.nodeID d.payload ∧
    Behind net.master d.nodeID d.revision ∧
    ∀ row, net.master.deployments.get? (d.nodeID, d.revision) = some row → row.payload = d.payload
  batches : ∀ batch ∈ net.batches, ∀ u ∈ batch.updates,
    Held issued net.master.rateShares batch.base.nodeID batch.base.runtimeID u.grantID u.authority
  nodes : ∀ n r, Machine.Holds (Consistent (Law issued net.master.rateShares n r fun _ => 0) Untied)
    (Durable (Law issued net.master.rateShares n r fun _ => 0)) (net.nodes n r)
  applied : ∀ e ∈ net.applied, ∀ b, e.2.payload.decode = some b → ∀ r ∈ b.runtimes, r.id = e.1 → ∀ g ∈ r.grants,
    g.policy.authorityRevision ≤ holds (net.row e.2.nodeID e.1 g.id)
  confirmed : ∀ batch ∈ net.confirmed, ∀ u ∈ batch.updates,
    u.authorityRevision ≤ holds (net.row batch.base.nodeID batch.base.runtimeID u.grantID)
  reports : ∀ report ∈ net.reports, Held issued net.master.rateShares report.nodeID report.runtimeID report.grantID
    report.authority ∧ report.authority.revision ≤ holds (net.row report.nodeID report.runtimeID report.grantID)

def Safe (net : Net) : Prop := ∃ issued, Inv issued net

theorem Inv.safe (h : Inv issued net) : Safe net := ⟨issued, h⟩

inductive Moves (holder : FleetRateShare → Nat) : Option FleetRateShare → Option FleetRateShare → Prop where
  | stay (share : Option FleetRateShare) : Moves holder share share
  | confirm (share : FleetRateShare) (h : uint64 share.revision ≤ holder share) :
    Moves holder (some share) (some share.confirmed)
  | first (next : FleetRateShare) (hrev : next.revision = 1) (hvalid : next.desired.validate = .ok ())
    (hout : next.outstanding.validate = .ok ()) (hle : next.desired ≤ next.outstanding) : Moves holder none (some next)
  | advance (share next : FleetRateShare) (hmax : share.revision ≠ maxInt64) (hrev : next.revision = share.revision + 1)
    (hnode : next.nodeID = share.nodeID) (hruntime : next.runtimeID = share.runtimeID)
    (hbudget : next.budgetID = share.budgetID) (hvalid : next.desired.validate = .ok ())
    (hout : next.outstanding.validate = .ok ()) (hgrow : share.outstanding ≤ next.outstanding)
    (hle : next.desired ≤ next.outstanding) : Moves holder (some share) (some next)

def record (issued : Nat → Option Rates) : Option FleetRateShare → Nat → Option Rates
  | none => issued
  | some share => Function.update issued (uint64 share.revision) (some share.desired)

theorem record_eq_self {f : Nat → Option Rates} (share : FleetRateShare) (h : f (uint64 share.revision) = some share.desired) :
    record f (some share) = f := by
  funext q
  rw [record, Function.update_apply]
  split
  · next hq => rw [hq, h]
  · rfl

theorem uint64_succ {n : Int} (h0 : 0 ≤ n) (hmax : n ≤ maxInt64) (hne : n ≠ maxInt64) : uint64 (n + 1) = uint64 n + 1 := by
  rw [uint64_of_nonneg (by omega) (by omega), uint64_of_nonneg h0 hmax]
  omega

section Moves

variable {f : Nat → Option Rates} {holder : FleetRateShare → Nat} {old new : Option FleetRateShare}

theorem Moves.shareOK (h : Moves holder old new) (hok : ∀ share, old = some share → ShareOK f (holder share) share)
    (hfresh : old = none → ∀ q, f q = none)
    (hholder : ∀ share next, old = some share → new = some next → holder next = holder share)
    (hnone : ∀ next, old = none → holder next = 0) (next : FleetRateShare) (hnew : new = some next) :
    ShareOK (record f new) (holder next) next := by
  cases h with
  | stay =>
    subst hnew
    have hshare := hok next rfl
    rwa [record_eq_self next hshare.last]
  | confirm share hheld =>
    cases hnew
    have hshare := hok share rfl
    rw [hholder share _ rfl rfl, record_eq_self share.confirmed hshare.last]
    have heq : holder share = uint64 share.revision := Nat.le_antisymm hshare.held hheld
    exact ⟨hshare.pos, hshare.max, hshare.last, hshare.beyond, hshare.held, hshare.desired, hshare.desired,
      heq ▸ Issued.covers_of_last hshare.beyond hshare.last⟩
  | first _ hrev hvalid hout hle =>
    cases hnew
    have hf := hfresh rfl
    refine ⟨by omega, ?_, by simp [record], ?_, ?_, hvalid, hout, ?_⟩
    · rw [hrev]
      unfold maxInt64
      omega
    · intro q hq
      rw [record, Function.update_of_ne (Nat.ne_of_gt hq), hf q]
    · rw [hnone next rfl]
      exact Nat.zero_le _
    · exact (Issued.covers_none hf _ next.outstanding).issue le_rfl hle _
  | advance share _ hmax hrev hnode hruntime hbudget hvalid hout hgrow hle =>
    cases hnew
    have hshare := hok share rfl
    have hsucc := uint64_succ (by have := hshare.pos; omega) hshare.max hmax
    rw [← hrev] at hsucc
    rw [hholder share next rfl rfl]
    refine ⟨?_, ?_, by simp [record], ?_, ?_, hvalid, hout, hshare.covers.issue hgrow hle _⟩
    · have := hshare.pos
      omega
    · have := hshare.max
      omega
    · intro q hq
      rw [record, Function.update_of_ne (Nat.ne_of_gt hq), hshare.beyond q (by omega)]
    · have := hshare.held
      omega

theorem Moves.extends (h : Moves holder old new) (hok : ∀ share, old = some share → ShareOK f (holder share) share)
    (hfresh : old = none → ∀ q, f q = none) {q : Nat} {v : Rates} (hv : f q = some v) : record f new q = some v := by
  cases h with
  | stay =>
    cases hnew : old with
    | none => exact hv
    | some share => rwa [record_eq_self share (hok share hnew).last]
  | confirm share _ => rwa [record_eq_self share.confirmed (hok share rfl).last]
  | first next =>
    rw [hfresh rfl q] at hv
    cases hv
  | advance share next hmax hrev =>
    have hshare := hok share rfl
    have hsucc := uint64_succ (by have := hshare.pos; omega) hshare.max hmax
    rw [← hrev] at hsucc
    rw [record, Function.update_of_ne, hv]
    rintro rfl
    rw [hshare.beyond _ (by omega)] at hv
    cases hv

end Moves

theorem Moves.scope (h : Moves holder old new) (ho : old = some share) :
    ∃ next, new = some next ∧ next.nodeID = share.nodeID ∧ next.runtimeID = share.runtimeID ∧
      next.budgetID = share.budgetID := by
  cases h with
  | stay => exact ⟨share, ho, rfl, rfl, rfl⟩
  | confirm share' _ =>
    cases ho
    exact ⟨_, rfl, rfl, rfl, rfl⟩
  | first next => cases ho
  | advance share' next _ _ hnode hruntime hbudget =>
    cases ho
    exact ⟨next, rfl, hnode, hruntime, hbudget⟩

theorem Moves.eq_none (h : Moves holder old new)
    (hnew : new = none) : old = none := by
  cases h with
  | stay => exact hnew
  | confirm | first | advance => cases hnew

def Shrinks (db db' : Fleet) (budgetID : String) : Prop :=
  ∀ id next, db'.rateShares.get? id = some next → next.budgetID = budgetID →
    ∃ share, db.rateShares.get? id = some share ∧ share.budgetID = budgetID ∧ next.outstanding ≤ share.outstanding ∧
      next.outstanding.validate = .ok () ∧ share.outstanding.validate = .ok ()

theorem fits_of_le {budgetID : String} {bound : Rate} (hbound : bound.validate = .ok ()) {dir : Rates → Rate}
    (hmono : ∀ a b : Rates, a ≤ b → dir a ≤ dir b) (hdir : ∀ a : Rates, a.validate = .ok () → (dir a).validate = .ok ())
    (hshares : Shrinks db db' budgetID) (h : fitsRates bound ((db.sharesOf budgetID).map fun e => dir e.2.outstanding) = true) :
    fitsRates bound ((db'.sharesOf budgetID).map fun e => dir e.2.outstanding) = true := by
  let before (e : String × FleetRateShare) : String × FleetRateShare := (e.1, (db.rateShares.get? e.1).getD e.2)
  have hmem : ∀ e ∈ db'.sharesOf budgetID, before e ∈ db.sharesOf budgetID ∧ e.2.outstanding ≤ (before e).2.outstanding ∧
      e.2.outstanding.validate = .ok () ∧ (before e).2.outstanding.validate = .ok () := by
    intro e he
    obtain ⟨hget, hb⟩ := Fleet.mem_sharesOf.mp he
    obtain ⟨share, hshare, hb', hle, hv, hv'⟩ := hshares e.1 e.2 hget hb
    have hbefore : before e = (e.1, share) := by simp only [before, hshare, Option.getD_some]
    rw [hbefore]
    exact ⟨Fleet.mem_sharesOf.mpr ⟨hshare, hb'⟩, hle, hv, hv'⟩
  have hsub : ((db'.sharesOf budgetID).map before).Subperm (db.sharesOf budgetID) := by
    refine List.subperm_of_subset (List.Nodup.of_map Prod.fst ?_) ?_
    · rw [List.map_map]
      exact db'.nodup_sharesOf budgetID
    · intro e he
      obtain ⟨e', he', rfl⟩ := List.mem_map.mp he
      exact (hmem e' he').1
  obtain ⟨us, hperm, hus⟩ := hsub
  have hfits := fitsRates_subperm hbound ⟨us.map fun e => dir e.2.outstanding, hperm.map _, hus.map _⟩ h
  rw [List.map_map] at hfits
  exact fitsRates_le hbound (fun e he => hdir _ (hmem e he).2.2.1) (fun e he => hdir _ (hmem e he).2.2.2)
    (fun e he => hmono _ _ (hmem e he).2.1) hfits

theorem Room.of_le {budgetID : String} {budget budget' : FleetRateBudget} (h : Room db budgetID budget)
    (hvalid : budget'.desired.validate = .ok ()) (hb : budget.desired ≤ budget'.desired)
    (hshares : Shrinks db db' budgetID) : Room db' budgetID budget' := by
  have hold := Rates.validate_eq_ok.mp h.valid
  have hnew := Rates.validate_eq_ok.mp hvalid
  refine ⟨hvalid, ?_, ?_⟩
  · refine fitsRates_bound hold.1 hnew.1 hb.1 (fits_of_le hold.1 (fun _ _ hab => hab.1) ?_ hshares h.upload)
    exact fun a ha => (Rates.validate_eq_ok.mp ha).1
  · refine fitsRates_bound hold.2 hnew.2 hb.2 (fits_of_le hold.2 (fun _ _ hab => hab.2) ?_ hshares h.download)
    exact fun a ha => (Rates.validate_eq_ok.mp ha).2

theorem Room.of_nil {budgetID : String} {budget : FleetRateBudget} (hvalid : budget.desired.validate = .ok ())
    (hnone : db.sharesOf budgetID = []) : Room db budgetID budget := by
  have hboth := Rates.validate_eq_ok.mp hvalid
  refine ⟨hvalid, ?_, ?_⟩
  · rw [hnone]
    exact fitsRates_nil hboth.1
  · rw [hnone]
    exact fitsRates_nil hboth.2

def Moved (net : Net) (db : Fleet) : Prop :=
  ∀ id, Moves (fun share => holds (net.row share.nodeID share.runtimeID id)) (net.master.rateShares.get? id)
    (db.rateShares.get? id)

structure Budgeted (db : Fleet) : Prop where
  room : ∀ id budget, db.rateBudgets.get? id = some budget → Room db id budget
  pools : ∀ id share, db.rateShares.get? id = some share → ∃ budget, db.rateBudgets.get? share.budgetID = some budget

structure Commits (net : Net) (db : Fleet) : Prop extends Budgeted db where
  moves : Moved net db
  range : ∀ id node, db.nodes.get? id = some node → 0 ≤ node.desiredRevision ∧ node.desiredRevision ≤ maxInt64
  behind : ∀ n revision, Behind net.master n revision → Behind db n revision
  rows : ∀ n revision d, db.deployments.get? (n, revision) = some d →
    net.master.deployments.get? (n, revision) = some d ∨
      ¬Behind net.master n revision ∧ Behind db n revision ∧ db.OffersPayload n d.payload

theorem Inv.held (h : Inv issued net) {row : Record} (hrow : net.row n r id = some row) :
    Held issued net.master.rateShares n r id row.grant.policy.authority :=
  ((Machine.kept_of_holds (m := machine) (fun _ hs => hs.durable) (h.nodes n r)).lawful id).1 row hrow

theorem Inv.holds_none (h : Inv issued net) (hnone : net.master.rateShares.get? id = none) (n r : String) :
    holds (net.row n r id) = 0 := by
  cases hrow : net.row n r id with
  | none => rfl
  | some row =>
    obtain ⟨-, share, hshare, -⟩ := h.held hrow
    rw [hnone] at hshare
    cases hshare

section Commit

variable {db' : Fleet}

theorem Inv.shareOK_of_moves (h : Inv issued net)
    (hmoves : Moves (fun share => holds (net.row share.nodeID share.runtimeID id)) (net.master.rateShares.get? id) new)
    {next : FleetRateShare} (hnew : new = some next) :
    ShareOK (record (issued id) new) (holds (net.row next.nodeID next.runtimeID id)) next := by
  refine hmoves.shareOK (fun share hshare => h.shares id share hshare) (fun hnone => h.fresh id hnone) ?_ ?_ next hnew
  · intro share next' hold hnew'
    obtain ⟨next'', hnext, hnode, hruntime, -⟩ := hmoves.scope hold
    cases hnew'.symm.trans hnext
    rw [hnode, hruntime]
  · exact fun next' hnone => h.holds_none hnone _ _

theorem Commits.held (hc : Commits net db') (h : Inv issued net) {a : Authority}
    (ha : Held issued net.master.rateShares n r id a) :
    Held (fun id => record (issued id) (db'.rateShares.get? id)) db'.rateShares n r id a := by
  obtain ⟨hissued, share, hshare, rfl, rfl⟩ := ha
  obtain ⟨next, hnext, hnode, hruntime, -⟩ := (hc.moves id).scope hshare
  exact ⟨(hc.moves id).extends (fun share hs => h.shares id share hs) (fun hnone => h.fresh id hnone) hissued, next, hnext,
    hnode, hruntime⟩

theorem Commits.heldPayload (hc : Commits net db') (h : Inv issued net) {payload : Payload}
    (hp : HeldPayload issued net.master.rateShares n payload) :
    HeldPayload (fun id => record (issued id) (db'.rateShares.get? id)) db'.rateShares n payload :=
  fun b hb r hr g hg => ⟨hc.held h (hp b hb r hr g hg).1, (hp b hb r hr g hg).2⟩

theorem heldPayload_of_offers {payload : Payload} (hp : db.OffersPayload n payload) :
    HeldPayload (fun id => record (issued id) (db.rateShares.get? id)) db.rateShares n payload := by
  intro b hb r hr g hg
  obtain ⟨share, hshare, hnode, hruntime, hrev, hrate, hdesired⟩ := hp b hb r hr g hg
  refine ⟨⟨?_, share, hshare, hnode, hruntime⟩, hrate.trans hrev.symm⟩
  simp only [hshare, record, Policy.authority, hrev, Function.update_self, hdesired]

theorem Inv.commit (h : Inv issued net) (hc : Commits net db') :
    Inv (fun id => record (issued id) (db'.rateShares.get? id)) { net with master := db' } where
  shares id share hshare := h.shareOK_of_moves (hc.moves id) hshare
  fresh id hnone q := by
    have hold := (hc.moves id).eq_none hnone
    dsimp only at hnone ⊢
    rw [hnone, record]
    exact h.fresh id hold q
  budgets := hc.room
  pools := hc.pools
  range := hc.range
  rows n revision d hd := by
    rcases hc.rows n revision d hd with hold | ⟨-, hbehind, hoffers⟩
    · obtain ⟨hheld, hbehind⟩ := h.rows n revision d hold
      exact ⟨hc.heldPayload h hheld, hc.behind n revision hbehind⟩
    · exact ⟨heldPayload_of_offers hoffers, hbehind⟩
  deployments d hd := by
    obtain ⟨hheld, hbehind, hsame⟩ := h.deployments d hd
    refine ⟨hc.heldPayload h hheld, hc.behind _ _ hbehind, fun row hrow => ?_⟩
    rcases hc.rows _ _ row hrow with hold | ⟨hnew, -⟩
    · exact hsame row hold
    · exact absurd hbehind hnew
  batches batch hbatch u hu := hc.held h (h.batches batch hbatch u hu)
  nodes n r := by
    refine holds_of_law (h.nodes n r) fun id => ⟨fun row hrow => ?_, Nat.zero_le _⟩
    exact hc.held h (h.held hrow)
  applied := h.applied
  confirmed := h.confirmed
  reports report hreport := ⟨hc.held h (h.reports report hreport).1, (h.reports report hreport).2⟩

theorem ShareOK.desired_le {f : Nat → Option Rates} {holder : Nat} (h : ShareOK f holder share) :
    share.desired ≤ share.outstanding :=
  h.covers _ _ h.held h.last

theorem Inv.budgeted_of_le (h : Inv issued net) (hmoves : Moved net db')
    (hle : ∀ id next, db'.rateShares.get? id = some next → ∃ share, net.master.rateShares.get? id = some share ∧
      next.outstanding ≤ share.outstanding)
    (hbudgets : ∀ id budget, net.master.rateBudgets.get? id = some budget →
      ∃ budget', db'.rateBudgets.get? id = some budget' ∧ budget.desired ≤ budget'.desired ∧ budget'.desired.validate = .ok ())
    (hnew : ∀ id budget', db'.rateBudgets.get? id = some budget' → budget'.desired.validate = .ok ()) : Budgeted db' := by
  have hshares : ∀ id next, db'.rateShares.get? id = some next → ∃ share, net.master.rateShares.get? id = some share ∧
      share.budgetID = next.budgetID ∧ next.outstanding ≤ share.outstanding ∧ next.outstanding.validate = .ok () ∧
      share.outstanding.validate = .ok () := by
    intro id next hnext
    obtain ⟨share, hshare, hout⟩ := hle id next hnext
    obtain ⟨next', hnext', -, -, hbudget⟩ := (hmoves id).scope hshare
    cases hnext.symm.trans hnext'
    exact ⟨share, hshare, hbudget.symm, hout, (h.shareOK_of_moves (hmoves id) hnext).outstanding,
      (h.shares id share hshare).outstanding⟩
  refine ⟨fun id budget' hbudget' => ?_, fun id next hnext => ?_⟩
  · cases hold : net.master.rateBudgets.get? id with
    | some budget =>
      obtain ⟨budget₁, hbudget₁, hgrow, hvalid⟩ := hbudgets id budget hold
      cases hbudget'.symm.trans hbudget₁
      refine (h.budgets id budget hold).of_le hvalid hgrow fun id' next hnext hb => ?_
      obtain ⟨share, hshare, hsame, hrest⟩ := hshares id' next hnext
      exact ⟨share, hshare, hsame.trans hb, hrest⟩
    | none =>
      -- A new budget has no shares.
      have hnone : db'.sharesOf id = [] := by
        rw [eq_nil_iff_forall_not_mem]
        intro e he
        obtain ⟨hget, hb⟩ := Fleet.mem_sharesOf.mp he
        obtain ⟨share, hshare, hsame, -⟩ := hshares e.1 e.2 hget
        obtain ⟨budget, hbudget⟩ := h.pools e.1 share hshare
        rw [hsame, hb, hold] at hbudget
        cases hbudget
      exact .of_nil (hnew id budget' hbudget') hnone
  · obtain ⟨share, hshare, hsame, -⟩ := hshares id next hnext
    obtain ⟨budget, hbudget⟩ := h.pools id share hshare
    obtain ⟨budget', hbudget', -⟩ := hbudgets _ budget hbudget
    exact ⟨budget', hsame ▸ hbudget'⟩

theorem Inv.budgeted_of_eq (h : Inv issued net) (hmoves : Moved net db')
    (hle : ∀ id next, db'.rateShares.get? id = some next → ∃ share, net.master.rateShares.get? id = some share ∧
      next.outstanding ≤ share.outstanding) (hbudgets : db'.rateBudgets = net.master.rateBudgets) : Budgeted db' := by
  refine h.budgeted_of_le hmoves hle (fun id budget hb => ?_) fun id budget hb => ?_
  · exact ⟨budget, hbudgets ▸ hb, le_rfl, (h.budgets id budget hb).valid⟩
  · exact (h.budgets id budget (hbudgets ▸ hb)).valid

theorem Inv.commits_of_prunes (h : Inv issued net) (hmoves : Moved net db') (hb : Budgeted db') (hp : net.master.Prunes db'.nodes db'.deployments) : Commits net db' where
  toBudgeted := hb
  moves := hmoves
  range id node hnode := by
    have hmap := hp.nodes id
    rw [hnode, map_some, eq_comm, map_eq_some_iff] at hmap
    obtain ⟨old, hold, heq⟩ := hmap
    exact heq ▸ h.range id old hold
  behind n revision := by
    rintro ⟨node, hnode, hle⟩
    have hmap := hp.nodes n
    rw [hnode, map_some, map_eq_some_iff] at hmap
    obtain ⟨new, hnew, heq⟩ := hmap
    exact ⟨new, hnew, heq ▸ hle⟩
  rows n revision d hd := .inl (hp.rows _ d hd)

theorem Inv.commits_of_deployment (h : Inv issued net) (hmoves : Moved net db') (hb : Budgeted db') {node : FleetNode} {d : FleetDeployment}
    (hnode : net.master.nodes.get? n = some node) (hmax : node.desiredRevision ≠ maxInt64)
    (hoffers : db'.OffersPayload n d.payload) (hnodes : db'.nodes = (net.master.withDeployment n node d).nodes)
    (hrows : db'.deployments = (net.master.withDeployment n node d).deployments) : Commits net db' where
  toBudgeted := hb
  moves := hmoves
  range id node' hnode' := by
    rw [hnodes, Fleet.withDeployment, get?_put] at hnode'
    split at hnode'
    · cases hnode'
      have hrange := h.range n node hnode
      dsimp only
      omega
    · exact h.range id node' hnode'
  behind n' revision := by
    rintro ⟨node', hnode', hle⟩
    unfold Behind
    rw [hnodes, Fleet.withDeployment, get?_put]
    split
    · next heq =>
      rw [heq, hnode] at hnode'
      cases hnode'
      exact ⟨_, rfl, by dsimp only; omega⟩
    · exact ⟨node', hnode', hle⟩
  rows n' revision d' hd' := by
    rw [hrows, Fleet.withDeployment, get?_keep, filter_eq_some_iff, get?_put] at hd'
    obtain ⟨hd', -⟩ := hd'
    split at hd'
    · next heq =>
      cases hd'
      obtain ⟨rfl, rfl⟩ := Prod.mk.injEq .. ▸ heq
      refine .inr ⟨?_, ?_, hoffers⟩
      · rintro ⟨node', hnode', hle⟩
        rw [hnode] at hnode'
        cases hnode'
        omega
      · unfold Behind
        rw [hnodes, Fleet.withDeployment, get?_put, if_pos rfl]
        exact ⟨_, rfl, le_rfl⟩
    · exact .inl hd'

theorem Inv.commits_of_shares_eq (h : Inv issued net) (hshares : db'.rateShares = net.master.rateShares)
    (hbudgets : db'.rateBudgets = net.master.rateBudgets) (hp : net.master.Prunes db'.nodes db'.deployments) :
    Commits net db' := by
  have hmoves : Moved net db' := fun id => hshares ▸ .stay _
  refine h.commits_of_prunes hmoves (h.budgeted_of_eq hmoves (fun id next hnext => ?_) hbudgets) hp
  exact ⟨next, hshares ▸ hnext, le_rfl⟩

theorem Inv.commits_of_confirms (h : Inv issued net) {P : String → FleetRateShare → Prop}
    (hs : net.master.Confirms db'.rateShares P)
    (hP : ∀ id share, net.master.rateShares.get? id = some share → P id share →
      uint64 share.revision ≤ holds (net.row share.nodeID share.runtimeID id))
    (hbudgets : db'.rateBudgets = net.master.rateBudgets) (hp : net.master.Prunes db'.nodes db'.deployments) :
    Commits net db' := by
  have hmoves : Moved net db' := by
    intro id
    rcases hs id with heq | ⟨share, hshare, hclaim, heq⟩
    · rw [heq]
      exact .stay _
    · rw [heq, hshare]
      exact .confirm share (hP id share hshare hclaim)
  refine h.commits_of_prunes hmoves (h.budgeted_of_eq hmoves (fun id next hnext => ?_) hbudgets) hp
  rcases hs id with heq | ⟨share, hshare, -, heq⟩
  · exact ⟨next, heq ▸ hnext, le_rfl⟩
  · cases hnext.symm.trans heq
    exact ⟨share, hshare, (h.shares id share hshare).desired_le⟩

theorem Inv.commits_of_published (h : Inv issued net) {digests : Digests}
    (hpub : Fleet.PublishedAs digests net.master db' n) : Commits net db' := by
  obtain ⟨stops, runtimes, clients, rfl | ⟨node, payload, hnode, hmax, hoffers, rfl⟩⟩ := hpub
  · exact h.commits_of_shares_eq rfl rfl ⟨fun _ => rfl, fun _ _ hd => hd⟩
  · have hmoves : Moved net net.master := fun id => .stay _
    refine h.commits_of_deployment (d := ⟨digests.payload payload, payload⟩) hmoves ?_ hnode hmax hoffers rfl rfl
    exact h.budgeted_of_eq hmoves (fun id next hnext => ⟨next, hnext, le_rfl⟩) rfl

theorem Inv.commits_of_stops (h : Inv issued net) {node : FleetNode} {d : FleetDeployment}
    (hs : net.master.Stops db'.rateShares) (hbudgets : db'.rateBudgets = net.master.rateBudgets)
    (hnode : net.master.nodes.get? n = some node) (hmax : node.desiredRevision ≠ maxInt64)
    (hoffers : db'.OffersPayload n d.payload) (hnodes : db'.nodes = (net.master.withDeployment n node d).nodes)
    (hrows : db'.deployments = (net.master.withDeployment n node d).deployments) : Commits net db' := by
  have hmoves : Moved net db' := by
    intro id
    rcases hs id with heq | ⟨share, hshare, hrev, heq⟩
    · rw [heq]
      exact .stay _
    · rw [heq, hshare]
      exact .advance share share.stopped hrev rfl rfl rfl rfl Rates.validate_zero (h.shares id share hshare).outstanding
        le_rfl (Rates.zero_le _)
  refine h.commits_of_deployment hmoves (h.budgeted_of_eq hmoves (fun id next hnext => ?_) hbudgets) hnode hmax hoffers hnodes hrows
  rcases hs id with heq | ⟨share, hshare, -, heq⟩
  · exact ⟨next, heq ▸ hnext, le_rfl⟩
  · cases hnext.symm.trans heq
    exact ⟨share, hshare, le_rfl⟩

theorem moves_of_granted {request : RateRequest}
    (hg : request.Granted net.master g pool) :
    Moves (fun share => holds (net.row share.nodeID share.runtimeID request.grantID))
      (net.master.rateShares.get? request.grantID) (some (request.next (net.master.rateShares.get? request.grantID))) := by
  have hprevious := hg.previous
  have hrev := hg.revision
  cases hget : net.master.rateShares.get? request.grantID with
  | none =>
    rw [hget] at hprevious
    exact .first _ rfl hg.desired (Rates.validate_envelope hprevious hg.desired) (Rates.le_envelope_right hprevious hg.desired)
  | some share =>
    rw [hget] at hprevious hrev
    exact .advance share _ hrev rfl rfl rfl rfl hg.desired (Rates.validate_envelope hprevious hg.desired)
      (Rates.le_envelope_left hprevious hg.desired) (Rates.le_envelope_right hprevious hg.desired)

theorem fits_of_granted {request : RateRequest}
    (hg : request.Granted net.master g pool) {bound : Rate} (hbound : bound.validate = .ok ()) {dir : Rates → Rate}
    (hzero : dir Rates.zero = Rate.zero)
    (hroom : (request.next (net.master.rateShares.get? request.grantID)).outstanding ≠
        outstandingOf (net.master.rateShares.get? request.grantID) →
      fitsRates bound ((((net.master.sharesOf request.budgetID).filter fun e => e.1 ≠ request.grantID).map
        (·.2.outstanding)).map dir ++ [dir (request.next (net.master.rateShares.get? request.grantID)).outstanding]) = true)
    (hold : fitsRates bound ((net.master.sharesOf request.budgetID).map fun e => dir e.2.outstanding) = true)
    (hshares : db'.rateShares = net.master.rateShares.put request.grantID
      (request.next (net.master.rateShares.get? request.grantID))) :
    fitsRates bound ((db'.sharesOf request.budgetID).map fun e => dir e.2.outstanding) = true := by
  have hbudget := request.budgetID_next fun share hshare => (hg.mine share hshare).1
  have hperm := Fleet.perm_sharesOf_put hshares
  rw [hbudget] at hperm
  refine fitsRates_subperm hbound (hperm.map _).subperm ?_
  rw [map_cons]
  by_cases hgrow : (request.next (net.master.rateShares.get? request.grantID)).outstanding =
      outstandingOf (net.master.rateShares.get? request.grantID)
  · rw [hgrow]
    cases hget : net.master.rateShares.get? request.grantID with
    | none =>
      rw [outstandingOf, elim_none, hzero]
      refine fitsRates_zero_cons hbound (fitsRates_subperm hbound ?_ hold)
      exact (filter_sublist.map _).subperm
    | some share =>
      have hmem : (request.grantID, share) ∈ net.master.sharesOf request.budgetID :=
        Fleet.mem_sharesOf.mpr ⟨hget, (hg.mine share hget).1⟩
      have hsub : ((request.grantID, share) :: (net.master.sharesOf request.budgetID).filter
          fun e => e.1 ≠ request.grantID).Subperm (net.master.sharesOf request.budgetID) := by
        refine subperm_of_subset (nodup_cons.mpr ⟨by simp, ?_⟩) ?_
        · exact (List.Nodup.of_map _ (net.master.nodup_sharesOf _)).filter _
        · exact cons_subset.mpr ⟨hmem, filter_sublist.subset⟩
      obtain ⟨us, hp, hus⟩ := hsub
      exact fitsRates_subperm hbound ⟨us.map _, hp.map fun e => dir e.2.outstanding, hus.map _⟩ hold
  · refine fitsRates_subperm hbound ?_ (hroom hgrow)
    rw [List.map_map]
    exact (perm_append_singleton _ _).symm.subperm

theorem Inv.commits_of_granted (h : Inv issued net) {request : RateRequest}
    (hg : request.Granted net.master g pool) (hbudgets : db'.rateBudgets = net.master.rateBudgets)
    (hnodes : db'.nodes = net.master.nodes) (hrows : db'.deployments = net.master.deployments)
    (hshares : db'.rateShares = net.master.rateShares.put request.grantID
      (request.next (net.master.rateShares.get? request.grantID))) : Commits net db' := by
  have hbudget := request.budgetID_next fun share hshare => (hg.mine share hshare).1
  have hmoves : Moved net db' := by
    intro id
    rw [hshares, get?_put]
    split
    · next heq => exact heq ▸ moves_of_granted hg
    · exact .stay _
  refine h.commits_of_prunes hmoves ⟨fun id budget hb => ?_, fun id share hshare => ?_⟩ ⟨fun _ => by rw [hnodes], fun _ _ hd => hrows ▸ hd⟩
  · rw [hbudgets] at hb
    have hroom := h.budgets id budget hb
    by_cases hid : id = request.budgetID
    · subst hid
      cases hg.budget.symm.trans hb
      have hvalid := Rates.validate_eq_ok.mp hroom.valid
      exact ⟨hroom.valid, fits_of_granted hg hvalid.1 rfl (fun hne => (hg.room hne).2.1) hroom.upload hshares,
        fits_of_granted hg hvalid.2 rfl (fun hne => (hg.room hne).2.2) hroom.download hshares⟩
    · refine hroom.of_le hroom.valid le_rfl fun id' next hnext hb' => ?_
      rw [hshares, get?_put] at hnext
      split at hnext
      · cases hnext
        exact absurd (hb'.symm.trans hbudget) hid
      · have hout := (h.shares id' next hnext).outstanding
        exact ⟨next, hnext, hb', le_rfl, hout, hout⟩
  · rw [hbudgets]
    rw [hshares, get?_put] at hshare
    split at hshare
    · cases hshare
      exact ⟨pool, hbudget.symm ▸ hg.budget⟩
    · exact h.pools id share hshare

theorem Inv.commits_of_others (h : Inv issued net) (hallows : allows net.master db' = true) :
    Commits net (others net.master db') := by
  simp only [allows, Bool.and_eq_true, List.all_eq_true, decide_eq_true_eq, Option.any_eq_true] at hallows
  obtain ⟨⟨⟨hnodes, hrange⟩, hbudgets⟩, hvalid⟩ := hallows
  have hmoves : Moved net (others net.master db') := fun id => .stay _
  have hb : Budgeted (others net.master db') := by
    refine h.budgeted_of_le hmoves (fun id next hnext => ⟨next, hnext, le_rfl⟩) (fun id budget hbudget => ?_) fun id budget hbudget => ?_
    · obtain ⟨budget', hbudget', hle⟩ := hbudgets ⟨id, budget⟩ (mem_entries.mpr hbudget)
      exact ⟨budget', hbudget', hle, hvalid ⟨id, budget'⟩ (mem_entries.mpr hbudget')⟩
    · exact hvalid ⟨id, budget⟩ (mem_entries.mpr hbudget)
  refine ⟨hb, hmoves, fun id node hnode => hrange ⟨id, node⟩ (mem_entries.mpr hnode), ?_, ?_⟩
  · rintro n revision ⟨node, hnode, hle⟩
    obtain ⟨node', hnode', hle'⟩ := hnodes ⟨n, node⟩ (mem_entries.mpr hnode)
    exact ⟨node', hnode', hle.trans hle'⟩
  · intro n revision d hd
    rw [others, get?_keep, Option.filter_eq_some_iff] at hd
    exact .inl hd.1

theorem Inv.safe_commit (h : Inv issued net) (hc : Commits net db') : Safe { net with master := db' } := (h.commit hc).safe

end Commit

section Law

variable {shares : Table String FleetRateShare} {n r : String} {floor : String → Nat}

theorem Law.applied {g : Grant} (hg : Held issued shares n r g.id g.policy.authority) {row : Option Record} {r' : Record}
    (hl : Law issued shares n r floor g.id row) (h : Applied row g r') : Law issued shares n r floor g.id (some r') := by
  rcases h with ⟨rfl, rfl⟩ | ⟨r₀, rfl, -, -, hcheck, rfl⟩
  · exact ⟨fun _ hr => by cases hr; exact hg, hl.2.trans (Nat.zero_le _)⟩
  · refine ⟨fun _ hr => ?_, hl.2.trans (revision_le_of_checkApply hcheck)⟩
    cases hr
    have hauthority := authority_retainCredit g.policy r₀.grant.policy
    exact hauthority ▸ hg

theorem Law.updated {u : PolicyUpdate} (hu : Held issued shares n r u.grantID u.policy.authority) {row : Option Record}
    {r' : Record} (hl : Law issued shares n r floor u.grantID row) (h : Updated row u r') :
    Law issued shares n r floor u.grantID (some r') := by
  rcases h with ⟨rfl, rfl⟩ | ⟨r₀, q, rfl, -, -, hmerge, rfl⟩
  · exact ⟨fun _ hr => by cases hr; exact hu, hl.2.trans (Nat.zero_le _)⟩
  · refine ⟨fun _ hr => ?_, hl.2.trans (revision_le_of_mergeAuthority hmerge)⟩
    cases hr
    have hauthority := authority_of_mergeAuthority hmerge
    exact hauthority ▸ hu

theorem Law.same_policy {r₀ r₁ : Record} (hl : Law issued shares n r floor id (some r₀))
    (h : r₁.grant.policy.authority = r₀.grant.policy.authority) : Law issued shares n r floor id (some r₁) := by
  refine ⟨fun _ hr => ?_, ?_⟩
  · cases hr
    exact h ▸ hl.1 r₀ rfl
  · have hrev : r₁.grant.policy.authorityRevision = r₀.grant.policy.authorityRevision := congrArg Authority.revision h
    simpa only [holds, elim_some, hrev] using hl.2

theorem Law.keeps_local (l : Local) : localMachine.Keeps (Consistent (Law issued shares n r floor) Untied)
    (Durable (Law issued shares n r floor)) (localMachine.op l) := by
  intro s hs
  cases l with
  | applyCredit credits env =>
    exact applyCredit_keeps follows_untied hs credits env fun c _ r₀ _ _ _ hl => hl.same_policy rfl
  | take id dir requested upTo turn =>
    refine Spec.bind (take_keeps follows_untied hs id dir requested upTo turn fun r₀ _ _ _ _ _ _ _ hl => ?_)
      fun _ t ht => (spec_pure _).mpr ht
    exact hl.same_policy rfl

end Law

def Ahead (issued : String → Nat → Option Rates) (net : Net) (n r : String) : String → Option Record → Prop :=
  Law issued net.master.rateShares n r fun id => holds (net.row n r id)

theorem Inv.ahead (h : Inv issued net) (n r : String) :
    Machine.Holds (Consistent (Ahead issued net n r) Untied) (Durable (Ahead issued net n r)) (net.nodes n r) :=
  holds_of_law (h.nodes n r) fun _ => ⟨fun _ hrow => h.held hrow, le_rfl⟩

theorem row_setNode (net : Net) (n r : String) (st : Status Store Database) (n' r' id : String) :
    (net.setNode n r st).row n' r' id = if n' = n ∧ r' = r then (machine.kept st).grants.get? id else net.row n' r' id := by
  unfold Net.row Net.setNode
  dsimp only
  split <;> rfl

theorem row_setNode_up (net : Net) (n r : String) (t : Store) (id : String) : (net.setNode n r (.up t)).row n r id = t.row id := by
  rw [row_setNode, if_pos ⟨rfl, rfl⟩]
  rfl

section SetNode

variable {n r : String} {w : Status Store Database}
  (hst : Machine.Holds (Consistent (Ahead issued net n r) Untied) (Durable (Ahead issued net n r)) w)

include hst

theorem law_kept (id : String) : Ahead issued net n r id ((machine.kept w).grants.get? id) :=
  (Machine.kept_of_holds (m := machine) (fun _ hs => hs.durable) hst).lawful id

theorem holds_le_setNode (n' r' id : String) : holds (net.row n' r' id) ≤ holds ((net.setNode n r w).row n' r' id) := by
  rw [row_setNode]
  split
  · next heq =>
    obtain ⟨rfl, rfl⟩ := heq
    exact (law_kept hst id).2
  · exact le_rfl

theorem Inv.setNode (h : Inv issued net) : Inv issued (net.setNode n r w) where
  shares id share hshare := by
    have hok := h.shares id share hshare
    have hmono := holds_le_setNode hst share.nodeID share.runtimeID id
    refine ⟨hok.pos, hok.max, hok.last, hok.beyond, ?_, hok.desired, hok.outstanding, hok.covers.holder hmono⟩
    rw [row_setNode]
    split
    · cases hrow : (machine.kept w).grants.get? id with
      | none => exact Nat.zero_le _
      | some row =>
        -- The row was issued, and nothing is issued beyond the last revision.
        have hheld := (law_kept hst id).1 row hrow
        refine Nat.le_of_not_lt fun hlt => ?_
        have hnone := hok.beyond _ hlt
        cases hheld.1.symm.trans hnone
    · exact hok.held
  fresh := h.fresh
  budgets := h.budgets
  pools := h.pools
  range := h.range
  rows := h.rows
  deployments := h.deployments
  batches := h.batches
  nodes n' r' := by
    unfold Net.setNode
    dsimp only
    split
    · next heq =>
      obtain ⟨rfl, rfl⟩ := heq
      refine holds_of_law hst fun id => ⟨?_, Nat.zero_le _⟩
      exact (law_kept hst id).1
    · exact h.nodes n' r'
  applied e he b hb r' hr' hid g hg := (h.applied e he b hb r' hr' hid g hg).trans (holds_le_setNode hst _ _ _)
  confirmed batch hbatch u hu := (h.confirmed batch hbatch u hu).trans (holds_le_setNode hst _ _ _)
  reports report hreport := ⟨(h.reports report hreport).1, (h.reports report hreport).2.trans (holds_le_setNode hst _ _ _)⟩

end SetNode

theorem Inv.execute (h : Inv issued net) {x : Prog Store NodeError Unit} {fates : List Fate} {done : Net → Net}
    {Q : Store → Prop}
    (hx : ∀ s, Consistent (Ahead issued net n r) Untied s →
      x.Spec s (fun _ t => Consistent (Ahead issued net n r) Untied t ∧ Q t) (Stops (Ahead issued net n r) Untied))
    (hdone : ∀ t, Consistent (Ahead issued net n r) Untied t → Q t → Inv issued (net.setNode n r (.up t)) →
      Inv issued (done (net.setNode n r (.up t)))) : Inv issued (net.execute n r x fates done) := by
  have hahead := h.ahead n r
  unfold Net.execute
  split
  · exact h
  · next s hs =>
    rw [hs] at hahead
    refine (hx s hahead).settle (P := Inv issued) ?_ ?_ fates
    · exact fun _ t ht => hdone t ht.1 ht.2 (h.setNode (w := .up t) ht.1)
    · rintro (e | -) t ht
      · exact h.setNode (w := .up t) ht
      · exact h.setNode (w := .down t.db) ht

theorem runtimeGrants_eq_ok {runtimeID : String} {d : Deployment}
    {grants : List Grant} (h : d.runtimeGrants hashes runtimeID intents = .ok grants) :
    ∃ b, d.payload.decode = some b ∧
      (∀ g ∈ grants, ∃ r ∈ b.runtimes, r.id = runtimeID ∧ FromDeployment runtimeID intents r g) ∧
      ∀ r ∈ b.runtimes, r.id = runtimeID → ∀ g₀ ∈ r.grants, ∃ g ∈ grants, g.id = g₀.id ∧
        g₀.policy.authorityRevision ≤ g.policy.authorityRevision := by
  simp only [Deployment.runtimeGrants, bind_eq_ok, found_eq_ok] at h
  obtain ⟨b, hb, h⟩ := h
  refine ⟨b, hb, ?_⟩
  split at h
  · next hfind =>
    cases h
    rw [List.find?_eq_none] at hfind
    exact ⟨by simp, fun r hr hid => absurd (decide_eq_true hid) (hfind r hr)⟩
  · next r hfind =>
    have hr : r ∈ b.runtimes := mem_of_find?_eq_some hfind
    have hid : r.id = runtimeID := by simpa using List.find?_some hfind
    simp only [bind_eq_ok, pure_eq_ok] at h
    obtain ⟨⟨grants', scope⟩, hprepare, rfl⟩ := h
    obtain ⟨hfrom, hcovers⟩ := Runtime.prepareAuthority_eq_ok hprepare
    obtain ⟨hids, hclients⟩ := Payload.nodup_of_decode hb
    refine ⟨fun g hg => ⟨r, hr, hid, hfrom g hg⟩, fun r' hr' hid' => ?_⟩
    rw [inj_on_of_nodup_map hids hr' hr (hid'.trans hid.symm)]
    exact hcovers (hclients r hr)

theorem Inv.deploy (h : Inv issued net) {runtimeID : String} {d : Deployment} (hd : d ∈ net.deployments) (hi : intents.all (net.received d.nodeID) = true)
    (fates : List Fate) : Inv issued (net.execute d.nodeID runtimeID (do
        let grants ← ofExcept (d.runtimeGrants hashes runtimeID intents)
        Store.reconcile grants) fates fun net => { net with applied := (runtimeID, d) :: net.applied }) := by
  refine h.execute (Q := fun t => ∀ b, d.payload.decode = some b → ∀ r ∈ b.runtimes, r.id = runtimeID → ∀ g ∈ r.grants,
    g.policy.authorityRevision ≤ holds (t.row g.id)) (fun s hs => ?_) fun t _ hQ ht => ?_
  · rw [spec_ofExcept_bind]
    refine ⟨fun _ _ => hs, fun grants hgrants => ?_⟩
    obtain ⟨b, hb, hfrom, hcovers⟩ := runtimeGrants_eq_ok hgrants
    have hheld : ∀ g ∈ grants, Held issued net.master.rateShares d.nodeID runtimeID g.id g.policy.authority := by
      intro g hg
      obtain ⟨r, hr, rfl, hg | ⟨i, hmem, hruntime, hid, hauthority⟩⟩ := hfrom g hg
      · exact ((h.deployments d hd).1 b hb r hr g hg).1
      · have hreceived := List.all_eq_true.mp hi i hmem
        simp only [Net.received, Bool.and_eq_true, decide_eq_true_eq, List.any_eq_true, List.contains_iff_mem] at hreceived
        obtain ⟨hnode, batch, hbatch, hbase, hu⟩ := hreceived
        have hheld := h.batches batch hbatch i.update hu
        rwa [hbase, hnode, hruntime, ← hid, ← hauthority] at hheld
    refine (reconcile_keeps follows_untied hs grants (fun id r _ hl => hl.same_policy (by rfl))
      fun g hg row r' hl happ => Law.applied (hheld g hg) hl happ).mono ?_ fun _ _ ht => ht
    rintro _ t ⟨ht, hrows⟩
    refine ⟨ht, fun b' hb' r hr hid g₀ hg₀ => ?_⟩
    cases hb.symm.trans hb'
    obtain ⟨g, hg, hgid, hle⟩ := hcovers r hr hid g₀ hg₀
    obtain ⟨row, r', -, happ, hrow⟩ := hrows g hg
    rw [← hgid, hrow]
    refine hle.trans ?_
    rcases happ with ⟨-, rfl⟩ | ⟨r₀, -, -, -, -, rfl⟩
    · exact le_rfl
    · have hrev := congrArg Authority.revision (authority_retainCredit g.policy r₀.grant.policy)
      exact hrev.ge
  · refine { ht with applied := fun e he b hb r hr hid g hg => ?_ }
    rcases List.mem_cons.mp he with rfl | he
    · have hrow := row_setNode_up net d.nodeID runtimeID t g.id
      exact hrow ▸ hQ b hb r hr hid g hg
    · exact ht.applied e he b hb r hr hid g hg

theorem policies_eq_ok {updates : List PolicyUpdate} (h : batch.policies = .ok updates) :
    (∀ p ∈ updates, ∃ u ∈ batch.updates, p.grantID = u.grantID ∧ p.policy.authority = u.authority) ∧
      ∀ u ∈ batch.updates, ∃ p ∈ updates, p.grantID = u.grantID ∧ p.policy.authority = u.authority := by
  simp only [AuthorityUpdateBatch.policies, unit_bind_eq_ok] at h
  obtain ⟨-, h⟩ := h
  refine ⟨fun p hp => ?_, fun u hu => ?_⟩
  · obtain ⟨u, hu, hpolicy⟩ := exists_of_mem_mapM h hp
    simp only [bind_eq_ok, pure_eq_ok] at hpolicy
    obtain ⟨policy, hpolicy, rfl⟩ := hpolicy
    exact ⟨u, hu, rfl, authority_of_update hpolicy⟩
  · obtain ⟨p, hp, hpolicy⟩ := exists_mem_of_mapM h hu
    simp only [bind_eq_ok, pure_eq_ok] at hpolicy
    obtain ⟨policy, hpolicy, rfl⟩ := hpolicy
    exact ⟨_, hp, rfl, authority_of_update hpolicy⟩

theorem Inv.update (h : Inv issued net) (hbatch : batch ∈ net.batches)
    (checking applying : Nat → Surroundings) (fates : List Fate) :
    Inv issued (net.execute batch.base.nodeID batch.base.runtimeID (do
        let updates ← ofExcept batch.policies
        Store.applyAuthority updates checking applying) fates fun net => { net with confirmed := batch :: net.confirmed }) := by
  refine h.execute (Q := fun t => ∀ u ∈ batch.updates, u.authorityRevision ≤ holds (t.row u.grantID)) (fun s hs => ?_)
    fun t _ hQ ht => ?_
  · rw [spec_ofExcept_bind]
    refine ⟨fun _ _ => hs, fun updates hupdates => ?_⟩
    obtain ⟨hfrom, hall⟩ := policies_eq_ok hupdates
    refine (applyAuthority_keeps follows_untied hs updates checking applying fun p hp row r' hl hupd => Law.updated ?_ hl hupd).mono ?_
      fun _ _ ht => ht
    · obtain ⟨u, hu, hid, hauthority⟩ := hfrom p hp
      rw [hid, hauthority]
      exact h.batches batch hbatch u hu
    · rintro _ t ⟨ht, hrows⟩
      refine ⟨ht, fun u hu => ?_⟩
      obtain ⟨p, hp, hid, hauthority⟩ := hall u hu
      obtain ⟨row, r', -, hupd, hrow⟩ := hrows p hp
      have hrev : p.policy.authorityRevision = u.authorityRevision := congrArg Authority.revision hauthority
      rw [← hid, hrow, ← hrev]
      rcases hupd with ⟨-, rfl⟩ | ⟨r₀, q, -, -, -, hmerge, rfl⟩
      · exact le_rfl
      · exact (congrArg Authority.revision (authority_of_mergeAuthority hmerge)).ge
  · refine { ht with confirmed := fun batch' hbatch' u hu => ?_ }
    rcases mem_cons.mp hbatch' with rfl | hbatch'
    · have hrow := row_setNode_up net batch'.base.nodeID batch'.base.runtimeID t u.grantID
      exact hrow ▸ hQ u hu
    · exact ht.confirmed batch' hbatch' u hu

theorem Inv.delivery (h : Inv issued net) {peer : Peer} {p : Principal} {generation : Nat} {sent : Option Deployment} (hd : net.master.delivery peer p generation = .ok (sent, db')) :
    Safe { net with master := db', deployments := sent.toList ++ net.deployments } := by
  obtain ⟨hsent, nodes, deployments, runtimes, clients, hprunes, rfl⟩ := Fleet.delivery_eq_ok hd
  have hc : Commits net { net.master with
      nodes := nodes, deployments := deployments, publishedRuntimes := runtimes, publishedClients := clients } :=
    h.commits_of_shares_eq rfl rfl hprunes
  refine ⟨_, { h.commit hc with deployments := fun d hd => ?_ }⟩
  rcases mem_append.mp hd with hd | hd
  · obtain ⟨node, row, hnode, hrow, hid, hrevision, hpayload⟩ := hsent d (mem_toList.mp hd)
    have hrange := h.range _ node hnode
    have hrev : (d.revision : Int) = node.desiredRevision := by
      rw [hrevision, uint64_of_nonneg hrange.1 hrange.2, Int.toNat_of_nonneg hrange.1]
    obtain ⟨hheld, hbehind⟩ := h.rows _ _ row hrow
    rw [hid, hrev, hpayload]
    refine ⟨hc.heldPayload h hheld, hc.behind _ _ hbehind, fun row' hrow' => ?_⟩
    rw [show net.master.deployments.get? _ = some row' from hprunes.rows _ _ hrow'] at hrow
    cases hrow
    rfl
  · exact (h.commit hc).deployments d hd

theorem Inv.fetch (h : Inv issued net) {peer : Peer} {p : Principal} {request : AuthorityBase}
    {authorize : Option AuthorityDeliveryValidator} {now : Int}
    (hf : net.master.fetchAuthorityUpdates hashes peer p request authorize now = .ok (batch, db')) :
    Safe { net with master := db', batches := batch :: net.batches } := by
  obtain ⟨hbase, hoffers, updates, rfl⟩ := Fleet.fetchAuthorityUpdates_eq_ok hf
  have hc : Commits net { net.master with authorityUpdates := updates } :=
    h.commits_of_shares_eq rfl rfl ⟨fun _ => rfl, fun _ _ hd => hd⟩
  refine ⟨_, { h.commit hc with batches := fun batch' hbatch' u hu => ?_ }⟩
  rcases mem_cons.mp hbatch' with rfl | hbatch'
  · obtain ⟨share, hshare, hnode, hruntime, hrev, hdesired⟩ := hoffers u hu
    refine hc.held h ⟨?_, share, hshare, hbase ▸ hnode, hbase ▸ hruntime⟩
    have hlast := (h.shares _ share hshare).last
    rw [hdesired, ← hrev] at hlast
    exact hlast
  · exact (h.commit hc).batches batch' hbatch' u hu

theorem Inv.holds_of_completed (h : Inv issued net) {nodeID : String} {result : ApplyResult}
    (hc : net.completed nodeID result = true) {row : FleetDeployment}
    (hrow : net.master.deployments.get? (nodeID, result.revision) = some row)
    (hclaim : row.payload.Claims nodeID id share) :
    uint64 share.revision ≤ holds (net.row share.nodeID share.runtimeID id) := by
  simp only [Net.completed, List.any_eq_true, Bool.and_eq_true, decide_eq_true_eq, Option.any_eq_true, List.all_eq_true,
    List.contains_iff_mem] at hc
  obtain ⟨d, hd, ⟨rfl, hrevision⟩, b, hb, hall⟩ := hc
  obtain ⟨hheld, -, hsame⟩ := h.deployments d hd
  rw [← hrevision] at hrow
  obtain ⟨b', hb', r, hr, g, hg, rfl, hnode, hruntime, hrev⟩ := hclaim
  rw [hsame row hrow, hb, Option.some.injEq] at hb'
  subst hb'
  rw [hrev, (hheld b hb r hr g hg).2, hnode, hruntime]
  exact h.applied (r.id, d) (hall r hr) b hb r hr rfl g hg

theorem Inv.holds_of_confirmed (h : Inv issued net) (hbatch : batch ∈ net.confirmed) (hclaim : batch.Claims id share) :
    uint64 share.revision ≤ holds (net.row share.nodeID share.runtimeID id) := by
  obtain ⟨u, hu, rfl, hnode, hruntime, hrev⟩ := hclaim
  have hconfirmed := h.confirmed batch hbatch u hu
  rw [hnode, hruntime, hrev]
  refine le_trans ?_ hconfirmed
  unfold uint64
  omega

theorem Inv.holds_of_report (h : Inv issued net) {report : RateReport} (hreport : report ∈ net.reports)
    (hid : report.grantID = id) {revision : Nat} (hrevision : report.authority.revision = revision)
    (hshare : net.master.rateShares.get? id = some share) (hrev : share.revision = revision) :
    uint64 share.revision ≤ holds (net.row share.nodeID share.runtimeID id) := by
  obtain ⟨⟨-, held, hheld, hnode, hruntime⟩, hle⟩ := h.reports report hreport
  rw [hid] at hheld hle
  cases hheld.symm.trans hshare
  rw [hnode, hruntime, hrev, ← hrevision]
  refine le_trans ?_ hle
  unfold uint64
  omega

theorem transact_keeps {α : Type} {P : Net → Prop} {result : Except FleetError (α × Fleet)} {send : α → Net → Net}
    (hnet : P net) (hok : ∀ a db', result = .ok (a, db') → P (send a { net with master := db' })) :
    P (net.transact result send) := by
  unfold Net.transact
  split
  · exact hok _ _ rfl
  · exact hnet

theorem commit_keeps {P : Net → Prop} {result : Except FleetError Fleet} (hnet : P net)
    (hok : ∀ db', result = .ok db' → P { net with master := db' }) : P (net.commit result) := by
  unfold Net.commit
  split
  · exact hok _ rfl
  · exact hnet

theorem Inv.step (digests : Digests) (h : Inv issued net) (a : Action) : Safe (net.step digests a) := by
  cases a with
  | requestRateShare request now =>
    refine transact_keeps h.safe fun a db' hr => ?_
    rcases Fleet.requestRateShare_eq_ok hr with rfl | ⟨ops, g, pool, hg, rfl⟩
    · exact h.safe
    · refine h.safe_commit ?_
      exact h.commits_of_granted hg rfl rfl rfl rfl
  | publishDeployment nodeID payload admissions now =>
    refine transact_keeps h.safe fun a db' hr => ?_
    exact h.safe_commit (h.commits_of_published (Fleet.publishDeployment_eq_ok hr))
  | publishConfiguration p desired admissions now =>
    refine transact_keeps h.safe fun a db' hr => ?_
    exact h.safe_commit (h.commits_of_published (Fleet.publishConfiguration_eq_ok hr))
  | stopConfiguration env p request =>
    refine transact_keeps h.safe fun a db' hr => ?_
    rcases Fleet.stopConfiguration_eq_ok hr with rfl | ⟨ops, shares, runtimes, clients, credits, node, d, hstops, hnode, hmax,
      hoffers, rfl⟩
    · exact h.safe
    · refine h.safe_commit ?_
      exact h.commits_of_stops hstops rfl hnode hmax hoffers rfl rfl
  | queueAuthorityUpdate grantID baseRevision enabled now =>
    refine commit_keeps h.safe fun db' hr => ?_
    obtain ⟨stops, updates, rfl⟩ := Fleet.queueAuthorityUpdate_eq_ok hr
    refine h.safe_commit ?_
    exact h.commits_of_shares_eq rfl rfl ⟨fun _ => rfl, fun _ _ hd => hd⟩
  | delivery peer p generation =>
    simp only [Net.step]
    refine transact_keeps h.safe fun a db' hr => ?_
    exact h.delivery hr
  | fetchAuthorityUpdates peer p request authorize now =>
    simp only [Net.step]
    refine transact_keeps h.safe fun a db' hr => ?_
    exact h.fetch hr
  | observe peer p generation result =>
    simp only [Net.step]
    split
    · exact h.safe
    · next hdone =>
      refine commit_keeps h.safe fun db' hr => ?_
      obtain ⟨d, shares, hd, hshares, nodes, deployments, runtimes, clients, stops, authorities, credits, hprunes, rfl⟩ :=
        Fleet.observe_eq_ok hr
      refine h.safe_commit ?_
      refine h.commits_of_confirms hshares (fun id share _ hclaim => ?_) rfl hprunes
      refine h.holds_of_completed ?_ hd hclaim.2
      by_contra hnot
      exact hdone ⟨hclaim.1, by simpa using hnot⟩
  | acknowledgeAuthorityUpdates peer p batch now =>
    simp only [Net.step]
    split
    · next hbatch =>
      refine transact_keeps h.safe fun a db' hr => ?_
      obtain ⟨shares, stops, updates, hshares, rfl⟩ := Fleet.acknowledgeAuthorityUpdates_eq_ok hr
      refine h.safe_commit ?_
      refine h.commits_of_confirms hshares (fun id share _ hclaim => ?_) rfl ⟨fun _ => rfl, fun _ _ hd => hd⟩
      exact h.holds_of_confirmed hbatch hclaim
    · exact h.safe
  | confirmRateShare p grantID revision applied =>
    simp only [Net.step]
    split
    · next hany =>
      refine commit_keeps h.safe fun db' hr => ?_
      simp only [List.any_eq_true, Bool.and_eq_true, decide_eq_true_eq] at hany
      obtain ⟨report, hreport, ⟨hnode, hgrant⟩, hauthority⟩ := hany
      obtain ⟨shares, rfl, hshares⟩ := Fleet.confirmRateShare_eq_ok hr
      refine h.safe_commit ?_
      refine h.commits_of_confirms hshares (fun id share hshare hclaim => ?_) rfl ⟨fun _ => rfl, fun _ _ hd => hd⟩
      obtain ⟨rfl, -, hrev, -⟩ := hclaim
      exact h.holds_of_report hreport hgrant (hauthority ▸ rfl) hshare hrev
    · exact h.safe
  | environment db =>
    simp only [Net.step]
    split
    · next hallows => exact h.safe_commit (h.commits_of_others hallows)
    · exact h.safe
  | deploy runtimeID d intents fates =>
    simp only [Net.step]
    split
    · next hd => exact (h.deploy hd.1 hd.2 fates).safe
    · exact h.safe
  | update batch checking applying fates =>
    simp only [Net.step]
    split
    · next hbatch => exact (h.update hbatch checking applying fates).safe
    · exact h.safe
  | runtime nodeID runtimeID event =>
    refine (h.setNode (Machine.holds_step (m := localMachine) Law.keeps_local (fun s hs => hs.durable) ?_ _ event
      (h.ahead nodeID runtimeID))).safe
    exact fun newID d s hd hs => consistent_of_open follows_untied hd hs
  | report nodeID runtimeID grantID =>
    simp only [Net.step]
    split
    · exact h.safe
    · next row hrow =>
      refine Inv.safe { h with reports := fun report hreport => ?_ }
      rcases mem_cons.mp hreport with rfl | hreport
      · exact ⟨h.held hrow, le_of_eq (congrArg holds hrow).symm⟩
      · exact h.reports report hreport

/-- A control plane before the first share: its deployments carry no grants. -/
structure Opening (db : Fleet) : Prop where
  shares : ∀ id, db.rateShares.get? id = none
  budgets : ∀ id budget, db.rateBudgets.get? id = some budget → budget.desired.validate = .ok ()
  nodes : ∀ id node, db.nodes.get? id = some node → 0 ≤ node.desiredRevision ∧ node.desiredRevision ≤ maxInt64
  deployments : ∀ id revision d, db.deployments.get? (id, revision) = some d →
    (∀ b, d.payload.decode = some b → b.grants = []) ∧ Behind db id revision

theorem Opening.inv (h : Opening db) : Inv (fun _ _ => none) { master := db } where
  shares id share hshare := absurd hshare (by simp [h.shares id])
  fresh _ _ _ := rfl
  budgets id budget hbudget := by
    have hnone : db.sharesOf id = [] := by
      rw [eq_nil_iff_forall_not_mem]
      intro e he
      have hget := (Fleet.mem_sharesOf.mp he).1
      rw [h.shares] at hget
      cases hget
    exact .of_nil (h.budgets id budget hbudget) hnone
  pools id share hshare := absurd hshare (by simp [h.shares id])
  range := h.nodes
  rows id revision d hd := by
    obtain ⟨hempty, hbehind⟩ := h.deployments id revision d hd
    refine ⟨fun b hb r hr g hg => ?_, hbehind⟩
    have hmem : g ∈ b.grants := mem_flatMap.mpr ⟨r, hr, hg⟩
    rw [hempty b hb] at hmem
    cases hmem
  deployments d hd := nomatch hd
  batches batch hbatch := nomatch hbatch
  nodes n r := ⟨by simp, by simp, by simp, by simp, fun id => by simp [Law]⟩
  applied e he := nomatch he
  confirmed batch hbatch := nomatch hbatch
  reports report hreport := nomatch hreport

theorem Opening.inv_after (h : Opening db) (digests : Digests) (actions : List Action) :
    Safe (Net.after digests { master := db } actions) := by
  refine Run.inv_after (I := Safe) ?_ h.inv.safe actions
  rintro net a ⟨issued, hinv⟩
  exact hinv.step digests a

section Inv

variable (h : Inv issued net)

include h

theorem Inv.consistent {s : Store} (hs : net.nodes n r = .up s) :
    Consistent (Law issued net.master.rateShares n r fun _ => 0) Untied s := by
  have hnodes := h.nodes n r
  rwa [hs] at hnodes

theorem Inv.account_le {s : Store} {m : Memory} (hs : net.nodes n r = .up s)
    (hm : s.accounts.get? id = some m) :
    ∃ share, net.master.rateShares.get? id = some share ∧ share.nodeID = n ∧ share.runtimeID = r ∧
      (⟨m.account.policy.upload, m.account.policy.download⟩ : Rates) ≤ share.outstanding := by
  have hcon := h.consistent hs
  obtain ⟨row, hrow⟩ := hcon.exists_row hm
  have hnet : net.row n r id = some row := by
    rw [Net.row, hs]
    exact hrow
  obtain ⟨hissued, share, hshare, rfl, rfl⟩ := h.held hnet
  refine ⟨share, hshare, rfl, rfl, ?_⟩
  rw [(hcon.agree id m row hm hrow).policy]
  exact (h.shares id share hshare).covers _ _ (le_of_eq (congrArg holds hnet)) hissued

theorem Inv.enforced_le (hshare : net.master.rateShares.get? id = some share) :
    net.enforced share.nodeID share.runtimeID id ≤ share.outstanding := by
  unfold Net.enforced
  split
  · exact Rates.zero_le _
  · next s hs =>
    cases hm : s.accounts.get? id with
    | none => exact Rates.zero_le _
    | some m =>
      obtain ⟨share', hshare', -, -, hle⟩ := h.account_le hs hm
      cases hshare.symm.trans hshare'
      exact hle

theorem Inv.validate_enforced (n r id : String) : (net.enforced n r id).validate = .ok () := by
  unfold Net.enforced
  split
  · exact Rates.validate_zero
  · next s hs =>
    cases hm : s.accounts.get? id with
    | none => exact Rates.validate_zero
    | some m =>
      have hcon := h.consistent hs
      obtain ⟨row, hrow⟩ := hcon.exists_row hm
      have hpolicy := Policy.validate_eq_ok.mp (policy_valid (hcon.durable.valid id row hrow))
      rw [elim_some, Rates.validate_eq_ok, (hcon.agree id m row hm hrow).policy]
      exact ⟨hpolicy.2.1, hpolicy.2.2.1⟩

end Inv

/-- Whatever the control plane, its nodes and the messages between them do, with budgets that are never tightened:
each account enforces no more than is outstanding for its share, and what is outstanding for the shares of a budget,
and what the runtimes enforce at once, fits it. -/
theorem enforced_fits (digests : Digests) {db : Fleet} (hdb : Opening db) (actions : List Action) :
    let net := Net.after digests { master := db } actions
    (∀ n r s id m, net.nodes n r = .up s → s.accounts.get? id = some m →
      ∃ share, net.master.rateShares.get? id = some share ∧ share.nodeID = n ∧ share.runtimeID = r ∧
        m.account.policy.upload ≤ share.outstanding.upload ∧ m.account.policy.download ≤ share.outstanding.download) ∧
    ∀ budgetID budget, net.master.rateBudgets.get? budgetID = some budget →
      let shares := net.master.sharesOf budgetID
      let enforced (e : String × FleetRateShare) := net.enforced e.2.nodeID e.2.runtimeID e.1
      fitsRates budget.desired.upload (shares.map (·.2.outstanding.upload)) = true ∧
        fitsRates budget.desired.download (shares.map (·.2.outstanding.download)) = true ∧
        fitsRates budget.desired.upload (shares.map fun e => (enforced e).upload) = true ∧
        fitsRates budget.desired.download (shares.map fun e => (enforced e).download) = true := by
  intro net
  obtain ⟨issued, hinv⟩ := hdb.inv_after digests actions
  refine ⟨fun n r s id m hs hm => hinv.account_le hs hm, fun budgetID budget hbudget => ?_⟩
  intro shares enforced
  have hroom := hinv.budgets budgetID budget hbudget
  have hbound := Rates.validate_eq_ok.mp hroom.valid
  have hle : ∀ e ∈ shares, enforced e ≤ e.2.outstanding := fun e he => hinv.enforced_le (Fleet.mem_sharesOf.mp he).1
  have hvalid : ∀ e ∈ shares, e.2.outstanding.upload.validate = .ok () ∧ e.2.outstanding.download.validate = .ok () :=
    fun e he => Rates.validate_eq_ok.mp (hinv.shares e.1 e.2 (Fleet.mem_sharesOf.mp he).1).outstanding
  have henforced : ∀ e, (enforced e).upload.validate = .ok () ∧ (enforced e).download.validate = .ok () :=
    fun e => Rates.validate_eq_ok.mp (hinv.validate_enforced _ _ _)
  refine ⟨hroom.upload, hroom.download, ?_, ?_⟩
  · exact fitsRates_le hbound.1 (fun e _ => (henforced e).1) (fun e he => (hvalid e he).1) (fun e he => (hle e he).1) hroom.upload
  · exact fitsRates_le hbound.2 (fun e _ => (henforced e).2) (fun e he => (hvalid e he).2) (fun e he => (hle e he).2)
      hroom.download

namespace Sample

def limit (bits : Nat) : Rates := ⟨⟨.limited, bits, 1⟩, ⟨.limited, bits, 1⟩⟩

def fleet : Fleet where
  grants := (∅ : Table String FleetGrant).put Pui.Sample.grant
    ⟨none, Pui.Sample.node, Pui.Sample.node, "edge", Pui.Sample.client, Pui.Sample.client, true, 0, 0, 1⟩
  nodes := (∅ : Table String FleetNode).put Pui.Sample.node { installationID := Pui.Sample.node, enabled := true }
  rateBudgets := (∅ : Table String FleetRateBudget).put Pui.Sample.client
    ⟨Pui.Sample.client, Pui.Sample.client, 1, limit 100⟩

def request (bits : Nat) : RateRequest :=
  ⟨Pui.Sample.grant, Pui.Sample.grant, Pui.Sample.client, Pui.Sample.node, Pui.Sample.node, "edge", limit bits⟩

theorem opening_fleet : Opening fleet := by
  refine ⟨fun _ => rfl, fun id budget hbudget => ?_, fun id node hnode => ?_, fun _ _ _ hd => (by cases hd)⟩
  · rw [fleet, get?_put] at hbudget
    split at hbudget
    · cases hbudget
      decide
    · cases hbudget
  · rw [fleet, get?_put] at hnode
    split at hnode
    · cases hnode
      decide
    · cases hnode

end Sample

/-- A request for a part of a budget is granted, and what is outstanding fits. -/
theorem enforced_fits_request :
    let net := Net.after Pui.Sample.digests { master := Sample.fleet } [.requestRateShare (Sample.request 40) 0]
    Opening Sample.fleet ∧
      (net.master.rateShares.get? Pui.Sample.grant).map FleetRateShare.outstanding = some (Sample.limit 40) ∧
      ∀ budgetID budget, net.master.rateBudgets.get? budgetID = some budget →
        fitsRates budget.desired.upload ((net.master.sharesOf budgetID).map (·.2.outstanding.upload)) = true := by
  refine ⟨Sample.opening_fleet, by decide +kernel, fun budgetID budget hbudget => ?_⟩
  exact ((enforced_fits Pui.Sample.digests Sample.opening_fleet _).2 budgetID budget hbudget).1

end SharedRates

end Pui
