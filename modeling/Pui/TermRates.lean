import Pui.StopConfiguration
import Pui.Terms

/-!
# Rates of one term at a time

A client's rate budget belongs to its current term, and moves on with it.
-/

namespace Pui

open Guard Table Option

inductive RateOp where
  | lifecycle (op : TermOp)
  | requestRateShare (request : RateRequest) (now : Int)
  | confirmRateShare (p : Principal) (grantID : String) (revision : Nat) (applied : Rates)
  | acknowledgeAuthorityUpdates (peer : Peer) (p : Principal) (batch : AuthorityUpdateBatch) (now : Int)
  | observe (peer : Peer) (p : Principal) (generation : Nat) (result : ApplyResult)
  | stopConfiguration (env : StopEnvironment) (p : Principal) (request : StopConfigurationRequest)
  | environment (db : Fleet)

def Fleet.keepsGrants (db db' : Fleet) : Bool :=
  db.grants.entries.all fun e => (db'.grants.get? e.1).any fun g => g.clientID = e.2.clientID && g.termID = e.2.termID

def Fleet.withOthers (db db' : Fleet) : Fleet :=
  { db' with clients := db.clients, terms := db.terms, rateBudgets := db.rateBudgets, rateShares := db.rateShares }

def RateOp.run (digests : Digests) (db : Fleet) : RateOp → Except FleetError Fleet
  | .lifecycle op => (·.2) <$> op.run digests db
  | .requestRateShare request now => (·.2) <$> db.requestRateShare digests request now
  | .confirmRateShare p grantID revision applied => db.confirmRateShare p grantID revision applied
  | .acknowledgeAuthorityUpdates peer p batch now =>
    (·.2) <$> db.acknowledgeAuthorityUpdates digests.toHashes peer p batch now
  | .observe peer p generation result => db.observe digests.toHashes peer p generation result
  | .stopConfiguration env p request => (·.2) <$> db.stopConfiguration digests env p request
  | .environment db' => .ok (if db.keepsGrants db' then db.withOthers db' else db)

def RateOp.step (digests : Digests) (db : Fleet) (op : RateOp) : Fleet :=
  match op.run digests db with
  | .ok db' => db'
  | .error _ => db

def Fleet.afterRates (digests : Digests) (db : Fleet) (ops : List RateOp) : Fleet := Run.after (fun db op => op.step digests db) db ops

/-- A share with something outstanding is one of a grant of the budget's term. -/
structure Fleet.ShareOfTerm (db : Fleet) (id : String) (share : FleetRateShare) : Prop where
  term : share.outstanding ≠ Rates.zero → ∃ g budget, db.grants.get? id = some g ∧
    db.rateBudgets.get? share.budgetID = some budget ∧ g.clientID = budget.clientID ∧ g.termID = budget.termID
  zero : share.outstanding = Rates.zero → share.desired = Rates.zero

structure Fleet.SingleTerm (db : Fleet) : Prop where
  ordered : ∀ clientID, db.Ordered clientID
  pools : ∀ id budget, db.rateBudgets.get? id = some budget → budget.clientID = id ∧
    ∃ client, db.clients.get? id = some client ∧ client.currentTermID = some budget.termID
  shares : ∀ id share, db.rateShares.get? id = some share → db.ShareOfTerm id share

variable {digests : Digests} {db db' : Fleet}

theorem Fleet.SingleTerm.of_shares (h : db.SingleTerm) (hclients : db'.clients = db.clients) (hterms : db'.terms = db.terms)
    (hbudgets : db'.rateBudgets = db.rateBudgets) (hshares : ∀ id share, db'.rateShares.get? id = some share → db'.ShareOfTerm id share) :
    db'.SingleTerm := by
  refine ⟨fun clientID client hclient => ?_, fun id budget hbudget => ?_, hshares⟩
  · rw [hterms]
    exact h.ordered clientID client (hclients ▸ hclient)
  · rw [hclients]
    exact h.pools id budget (hbudgets ▸ hbudget)

variable {id : String} {share : FleetRateShare} {g : FleetGrant} {result : TransitionResult}

theorem Fleet.ShareOfTerm.congr (h : db.ShareOfTerm id share)
    (hgrants : ∀ id g, db.grants.get? id = some g → ∃ g', db'.grants.get? id = some g' ∧ g'.clientID = g.clientID ∧ g'.termID = g.termID)
    (hbudgets : db'.rateBudgets = db.rateBudgets) : db'.ShareOfTerm id share := by
  refine ⟨fun hne => ?_, h.zero⟩
  obtain ⟨g, budget, hg, hbudget, hclient, hterm⟩ := h.term hne
  obtain ⟨g', hg', hclient', hterm'⟩ := hgrants id g hg
  exact ⟨g', budget, hg', hbudgets ▸ hbudget, hclient'.trans hclient, hterm'.trans hterm⟩

theorem Rate.eq_zero_of_le {r : Rate} (hr : r.validate = .ok ()) (h : r ≤ Rate.zero) : r = Rate.zero := by
  have hmode : r.mode = .blocked := by
    rcases Rate.le_iff.mp h with h | h | h | ⟨-, h, -⟩
    · cases h
    · exact h
    · rw [h]
      rfl
    · cases h
  obtain ⟨mode, bits, burst⟩ := r
  rcases Rate.validate_eq_ok.mp hr with ⟨-, hbits, hburst⟩ | ⟨hlimited, -⟩
  · dsimp only at hmode hbits hburst
    rw [hmode, hbits, hburst]
    rfl
  · rw [hmode] at hlimited
    cases hlimited

theorem Rates.eq_zero_of_le {r : Rates} (hr : r.validate = .ok ()) (h : r ≤ Rates.zero) : r = Rates.zero := by
  rw [Rates.validate_eq_ok] at hr
  obtain ⟨up, down⟩ := r
  rw [show up = Rate.zero from Rate.eq_zero_of_le hr.1 h.1, show down = Rate.zero from Rate.eq_zero_of_le hr.2 h.2]
  rfl

theorem Fleet.SingleTerm.granted (h : db.SingleTerm) {request : RateRequest} {pool : FleetRateBudget}
    (hg : request.Granted db g pool) : db.ShareOfTerm request.grantID (request.next (db.rateShares.get? request.grantID)) := by
  have hbudget := request.budgetID_next fun share hshare => (hg.mine share hshare).1
  refine ⟨fun hne => ?_, fun hzero => ?_⟩
  · by_cases hgrow : (request.next (db.rateShares.get? request.grantID)).outstanding = outstandingOf (db.rateShares.get? request.grantID)
    · cases hget : db.rateShares.get? request.grantID with
      | none =>
        rw [hget] at hgrow hne
        exact absurd hgrow hne
      | some share =>
        rw [hget] at hgrow hne
        rw [hgrow] at hne
        exact (h.shares _ share hget).term hne
    · exact ⟨g, pool, hg.grant, hbudget.symm ▸ hg.budget, hg.client, (hg.room hgrow).1⟩
  · refine Rates.eq_zero_of_le hg.desired ?_
    rw [← hzero]
    exact Rates.le_envelope_right hg.previous hg.desired

theorem Fleet.ShareOfTerm.confirmed (h : db.ShareOfTerm id share) :
    db.ShareOfTerm id share.confirmed :=
  ⟨fun hne => h.term fun hzero => hne (h.zero hzero), fun hzero => hzero⟩

theorem Fleet.ShareOfTerm.stopped (h : db.ShareOfTerm id share) :
    db.ShareOfTerm id share.stopped :=
  ⟨h.term, fun _ => rfl⟩

theorem Fleet.SingleTerm.confirms (h : db.SingleTerm) {shares : Table String FleetRateShare} {P : String → FleetRateShare → Prop}
    (hs : db.Confirms shares P) (hshares : db'.rateShares = shares) (hgrants : db'.grants = db.grants)
    (hbudgets : db'.rateBudgets = db.rateBudgets) (id : String) (share : FleetRateShare)
    (hshare : db'.rateShares.get? id = some share) : db'.ShareOfTerm id share := by
  have hkeep : ∀ id g, db.grants.get? id = some g → ∃ g', db'.grants.get? id = some g' ∧ g'.clientID = g.clientID ∧ g'.termID = g.termID :=
    fun id g hg => ⟨g, hgrants ▸ hg, rfl, rfl⟩
  rw [hshares] at hshare
  rcases hs id with heq | ⟨old, hold, -, heq⟩
  · exact (h.shares id share (heq ▸ hshare)).congr hkeep hbudgets
  · cases hshare.symm.trans heq
    exact (h.shares id old hold).confirmed.congr hkeep hbudgets

theorem TermOp.Ran.singleTerm {op : TermOp} (hran : op.Ran digests db db' result)
    (h : db.SingleTerm) : db'.SingleTerm := by
  obtain ⟨client, client', hclient, hclients, -, hpool⟩ := hran.change
  refine ⟨fun clientID => hran.ordered (h.ordered clientID), fun id budget hbudget => ?_, fun id share hshare => ?_⟩
  · rw [hclients, get?_put]
    rcases hpool with ⟨hsame, hbudgets⟩ | ⟨termID, pool, hcurrent, hpoolClient, hpoolTerm, hbudgets, -⟩
    · rw [hbudgets] at hbudget
      obtain ⟨hid, c, hc, hterm⟩ := h.pools id budget hbudget
      refine ⟨hid, ?_⟩
      split
      · next heq =>
        rw [heq, hclient] at hc
        cases hc
        exact ⟨client', rfl, hsame.trans hterm⟩
      · exact ⟨c, hc, hterm⟩
    · rw [hbudgets] at hbudget
      split at hbudget
      · next heq =>
        cases hbudget
        exact ⟨hpoolClient.trans heq.symm, client', by rw [if_pos heq], hcurrent.trans (congrArg some hpoolTerm.symm)⟩
      · next hne =>
        rw [if_neg hne]
        exact h.pools id budget hbudget
  · rw [hran.shares] at hshare
    have hold := h.shares id share hshare
    refine ⟨fun hne => ?_, hold.zero⟩
    obtain ⟨g, budget, hg, hbudget, hgClient, hgTerm⟩ := hold.term hne
    obtain ⟨hid, c, hc, hterm⟩ := h.pools _ budget hbudget
    rcases hpool with ⟨-, hbudgets⟩ | ⟨termID, pool, -, -, -, hbudgets, hstopped⟩
    · exact ⟨g, budget, hran.grants ▸ hg, hbudgets ▸ hbudget, hgClient, hgTerm⟩
    · by_cases heq : share.budgetID = op.clientID
      · -- The share would be one of the term that was just stopped.
        rw [heq, hclient] at hc
        cases hc
        obtain ⟨share', hshare', hzero⟩ := hstopped _ hterm id g hg (hgClient.trans (hid.trans heq)) hgTerm
        cases hshare.symm.trans hshare'
        exact absurd hzero hne
      · refine ⟨g, budget, hran.grants ▸ hg, ?_, hgClient, hgTerm⟩
        rw [hbudgets, if_neg heq, hbudget]

theorem Fleet.keepsGrants_eq_true (h : db.keepsGrants db' = true) (hg : db.grants.get? id = some g) :
    ∃ g', db'.grants.get? id = some g' ∧ g'.clientID = g.clientID ∧ g'.termID = g.termID := by
  simp only [Fleet.keepsGrants, List.all_eq_true, any_eq_true, Bool.and_eq_true, decide_eq_true_eq] at h
  exact h ⟨id, g⟩ (mem_entries.mpr hg)

theorem RateOp.run_eq_ok {op : RateOp} (h : op.run digests db = .ok db') (hdb : db.SingleTerm) :
    db' = db ∨ (∃ t result, TermOp.Ran digests t db db' result) ∨
      db'.clients = db.clients ∧ db'.terms = db.terms ∧ db'.rateBudgets = db.rateBudgets ∧
        ∀ id share, db'.rateShares.get? id = some share → db'.ShareOfTerm id share := by
  cases op with
  | lifecycle op =>
    obtain ⟨result, h⟩ := map_snd_eq_ok h
    rcases TermOp.run_eq_ok h with ⟨-, -, -, -, -, -, rfl⟩ | hran
    · exact .inl rfl
    · exact .inr (.inl ⟨op, result, hran⟩)
  | requestRateShare request now =>
    obtain ⟨result, h⟩ := map_snd_eq_ok h
    rcases Fleet.requestRateShare_eq_ok h with rfl | ⟨ops, g, pool, hg, rfl⟩
    · exact .inl rfl
    · refine .inr (.inr ⟨rfl, rfl, rfl, fun id share hshare => ?_⟩)
      rw [get?_put] at hshare
      split at hshare
      · next heq =>
        cases hshare
        subst heq
        exact (hdb.granted hg).congr (fun id g hg => ⟨g, hg, rfl, rfl⟩) rfl
      · exact (hdb.shares id share hshare).congr (fun id g hg => ⟨g, hg, rfl, rfl⟩) rfl
  | confirmRateShare p grantID revision applied =>
    obtain ⟨shares, rfl, hshares⟩ := Fleet.confirmRateShare_eq_ok h
    exact .inr (.inr ⟨rfl, rfl, rfl, hdb.confirms hshares (by rfl) (by rfl) (by rfl)⟩)
  | acknowledgeAuthorityUpdates peer p batch now =>
    obtain ⟨result, h⟩ := map_snd_eq_ok h
    obtain ⟨shares, stops, updates, hshares, rfl⟩ := Fleet.acknowledgeAuthorityUpdates_eq_ok h
    exact .inr (.inr ⟨rfl, rfl, rfl, hdb.confirms hshares (by rfl) (by rfl) (by rfl)⟩)
  | observe peer p generation result =>
    obtain ⟨d, shares, -, hshares, nodes, deployments, runtimes, clients, stops, authorities, credits, -, rfl⟩ :=
      Fleet.observe_eq_ok h
    exact .inr (.inr ⟨rfl, rfl, rfl, hdb.confirms hshares (by rfl) (by rfl) (by rfl)⟩)
  | stopConfiguration env p request =>
    obtain ⟨result, h⟩ := map_snd_eq_ok h
    rcases Fleet.stopConfiguration_eq_ok h with rfl | ⟨ops, shares, runtimes, clients, credits, node, d, hstops, -, -, -, rfl⟩
    · exact .inl rfl
    · refine .inr (.inr ⟨rfl, rfl, rfl, fun id share hshare => ?_⟩)
      rcases hstops id with heq | ⟨old, hold, -, heq⟩
      · exact (hdb.shares id share (heq ▸ hshare)).congr (fun id g hg => ⟨g, hg, rfl, rfl⟩) rfl
      · cases hshare.symm.trans heq
        exact (hdb.shares id old hold).stopped.congr (fun id g hg => ⟨g, hg, rfl, rfl⟩) rfl
  | environment other =>
    cases h
    split
    · next hkeeps =>
      refine .inr (.inr ⟨rfl, rfl, rfl, fun id share hshare => ?_⟩)
      exact (hdb.shares id share hshare).congr (fun id g hg => Fleet.keepsGrants_eq_true hkeeps hg) rfl
    · exact .inl rfl

theorem RateOp.singleTerm_step (digests : Digests) (db : Fleet) (op : RateOp) (hdb : db.SingleTerm) :
    (op.step digests db).SingleTerm := by
  unfold RateOp.step
  split
  · next db' hrun =>
    rcases RateOp.run_eq_ok hrun hdb with rfl | ⟨t, result, hran⟩ | ⟨hclients, hterms, hbudgets, hshares⟩
    · exact hdb
    · exact hran.singleTerm hdb
    · exact hdb.of_shares hclients hterms hbudgets hshares
  · exact hdb

def Fleet.StaysClosed (db db' : Fleet) : Prop :=
  ∀ id t, db.terms.get? id = some t → t.state = .closed → ∃ t', db'.terms.get? id = some t' ∧ t'.state = .closed

theorem TermChange.staysClosed {clientID : String} {client client' : FleetClient} {terms terms' : Table String FleetTerm}
    (h : TermChange clientID client terms client' terms') {t : FleetTerm} (ht : terms.get? id = some t)
    (hs : t.state = .closed) : terms'.get? id = some t := by
  -- No row that is written was closed.
  have hne : ∀ k row, terms.get? k = some row → row.state ≠ .closed → id ≠ k := by
    rintro k row hk hrow rfl
    cases ht.symm.trans hk
    exact hrow hs
  have hnew : ∀ k, terms.get? k = none → id ≠ k := by
    rintro k hk rfl
    rw [hk] at ht
    cases ht
  cases h with
  | activate termID term _ _ hfree => rw [get?_put_of_ne (hnew _ hfree), ht]
  | «open» currentID termID previous term _ _ hprevious _ hpreviousState hfree =>
    rw [get?_put_of_ne (hnew _ hfree), get?_put_of_ne (hne _ _ hprevious (by simp [hpreviousState])), ht]
  | complete currentID pendingID previous term term' _ _ hprevious _ hpreviousState hterm _ hstate =>
    rw [get?_put_of_ne (hne _ _ hprevious (by simp [hpreviousState])), get?_put_of_ne (hne _ _ hterm (by simp [hstate])), ht]
  | cancel currentID pendingID previous term _ _ hprevious _ hpreviousState hterm _ hstate =>
    rw [get?_put_of_ne (hne _ _ hprevious (by simp [hpreviousState])), get?_put_of_ne (hne _ _ hterm (by simp [hstate])), ht]

theorem RateOp.staysClosed_step (digests : Digests) (db : Fleet) (op : RateOp) (hdb : db.SingleTerm) :
    db.StaysClosed (op.step digests db) := by
  unfold RateOp.step
  split
  · next db' hrun =>
    intro id t ht hs
    rcases RateOp.run_eq_ok hrun hdb with rfl | ⟨op', result, hran⟩ | ⟨-, hterms, -, -⟩
    · exact ⟨t, ht, hs⟩
    · obtain ⟨client, client', -, -, hchange, -⟩ := hran.change
      exact ⟨t, hchange.staysClosed ht hs, hs⟩
    · exact ⟨t, hterms ▸ ht, hs⟩
  · exact fun id t ht hs => ⟨t, ht, hs⟩

theorem Fleet.SingleTerm.zero_of_closed (h : db.SingleTerm) {t : FleetTerm}
    (hg : db.grants.get? id = some g) (ht : db.terms.get? g.termID = some t) (hs : t.state = .closed)
    (hshare : db.rateShares.get? id = some share) : share.desired = Rates.zero ∧ share.outstanding = Rates.zero := by
  have hok := h.shares id share hshare
  by_cases hzero : share.outstanding = Rates.zero
  · exact ⟨hok.zero hzero, hzero⟩
  · obtain ⟨g', budget, hg', hbudget, -, hterm⟩ := hok.term hzero
    cases hg.symm.trans hg'
    obtain ⟨-, client, hclient, hcurrent⟩ := h.pools _ budget hbudget
    obtain ⟨t', ht', -, hlive⟩ := (h.ordered _ client hclient).state_current hcurrent
    rw [← hterm, ht] at ht'
    cases ht'
    rw [hs] at hlive
    split at hlive <;> cases hlive

theorem Fleet.moved_of_completeTransition {request : CompleteTransitionRequest} {now : Int}
    (h : db.completeTransition digests request now = .ok (result, db')) (hfresh : result.replayed = false) :
    ∃ client, db'.clients.get? request.clientID = some client ∧ client.currentTermID = some request.pendingTermID ∧
      client.pendingTermID = none := by
  simp only [Fleet.completeTransition, unit_bind_eq_ok] at h
  rcases Fleet.lifecycleOperation_eq_ok h.2 with ⟨row, stored, -, -, -, rfl, -⟩ | ⟨-, mid, hbody, rfl⟩
  · cases hfresh
  · simp only [bind_eq_ok, pure_eq_ok, Prod.mk.injEq] at hbody
    obtain ⟨⟨client, term, currentID, previous⟩, -, -, -, -, -, -, -, started, -, final, hpool, -, rfl⟩ := hbody
    obtain ⟨⟨rates, rfl⟩, -⟩ := Fleet.activateRatePool_eq_ok hpool
    exact ⟨_, get?_put_self _ _ _, rfl, rfl⟩

structure Fleet.Termless (db : Fleet) : Prop where
  terms : ∀ clientID, db.Unstarted clientID
  budgets : ∀ id, db.rateBudgets.get? id = none
  shares : ∀ id, db.rateShares.get? id = none

theorem Fleet.Termless.singleTerm (h : db.Termless) : db.SingleTerm :=
  ⟨fun clientID => (h.terms clientID).ordered, fun id budget hbudget => absurd hbudget (by simp [h.budgets id]),
    fun id share hshare => absurd hshare (by simp [h.shares id])⟩

theorem Fleet.SingleTerm.after (h : db.SingleTerm) (digests : Digests) (ops : List RateOp) :
    (db.afterRates digests ops).SingleTerm ∧ db.StaysClosed (db.afterRates digests ops) := by
  refine ⟨Run.inv_after (I := Fleet.SingleTerm) (fun db op => op.singleTerm_step digests db) h ops, ?_⟩
  refine Run.rel_after (I := Fleet.SingleTerm) (R := Fleet.StaysClosed) (fun _ _ t ht hs => ⟨t, ht, hs⟩) ?_
    (fun db op => op.singleTerm_step digests db) (fun db op => op.staysClosed_step digests db) h ops
  intro s t u hst htu id row hrow hs
  obtain ⟨row', hrow', hs'⟩ := hst id row hrow hs
  exact htu id row' hrow' hs'

/-- In every run: a share with something outstanding is one of a grant of the term that its budget belongs to. Once a
transition is completed, no grant of an earlier term of the client has a rate again. -/
theorem single_term (digests : Digests) {db : Fleet} (hdb : db.Termless) (ops : List RateOp) :
    let now := db.afterRates digests ops
    (∀ id share, now.rateShares.get? id = some share →
      (share.outstanding ≠ Rates.zero → ∃ g budget, now.grants.get? id = some g ∧
        now.rateBudgets.get? share.budgetID = some budget ∧ g.termID = budget.termID) ∧
      (share.outstanding = Rates.zero → share.desired = Rates.zero)) ∧
    ∀ request time result next, now.completeTransition digests request time = .ok (result, next) → result.replayed = false →
      ∀ later id g t share, next.terms.get? g.termID = some t → t.clientID = request.clientID →
        g.termID ≠ request.pendingTermID → (next.afterRates digests later).grants.get? id = some g →
        (next.afterRates digests later).rateShares.get? id = some share →
        share.desired = Rates.zero ∧ share.outstanding = Rates.zero := by
  intro now
  have hnow : now.SingleTerm := (hdb.singleTerm.after digests ops).1
  refine ⟨fun id share hshare => ?_, fun request time result next hrun hfresh later id g t share ht hclient hne hg hshare => ?_⟩
  · have hok := hnow.shares id share hshare
    refine ⟨fun hout => ?_, hok.zero⟩
    obtain ⟨g, budget, hg, hbudget, -, hterm⟩ := hok.term hout
    exact ⟨g, budget, hg, hbudget, hterm⟩
  · have hstep : next = (RateOp.lifecycle (.complete request time)).step digests now := by
      rw [RateOp.step, RateOp.run, TermOp.run, hrun]
      rfl
    have hnext : next.SingleTerm := hstep ▸ RateOp.singleTerm_step digests now _ hnow
    obtain ⟨client, hget, hcurrent, hpending⟩ := Fleet.moved_of_completeTransition hrun hfresh
    have hclosed : t.state = .closed :=
      (hnext.ordered _ client hget).closed_of_ne ht hclient (by simp [hcurrent, hne.symm]) (by simp [hpending])
    obtain ⟨hlater, hstays⟩ := hnext.after digests later
    obtain ⟨t', ht', hs'⟩ := hstays _ t ht hclosed
    exact hlater.zero_of_closed hg ht' hs' hshare

namespace Sample

def slow : Rates := ⟨⟨.limited, 40, 1⟩, ⟨.limited, 40, 1⟩⟩

def rateRun : List RateOp :=
  [.lifecycle (.transition { activation with spec := { activation.spec with rates := slow } } ⟨grant, by decide⟩ 5),
    .environment {
      grants := (∅ : Table String FleetGrant).put node ⟨none, node, node, "edge", client, grant, true, 0, 0, 1⟩
      nodes := (∅ : Table String FleetNode).put node { installationID := node, enabled := true } },
    .requestRateShare ⟨client, node, client, node, node, "edge", slow⟩ 6]

theorem termless_bound : bound.Termless := by
  refine ⟨fun clientID => ⟨fun id t ht => (nomatch ht), fun c hc => ?_⟩, fun _ => rfl, fun _ => rfl⟩
  rw [bound, get?_put] at hc
  split at hc
  · cases hc
    exact ⟨rfl, rfl⟩
  · cases hc

end Sample

/-- A share that is granted in the current term has its rates outstanding, and its grant has the budget's term. -/
theorem single_term_share :
    let now := Sample.bound.afterRates Sample.digests Sample.rateRun
    Sample.bound.Termless ∧ (now.rateShares.get? Sample.node).map FleetRateShare.outstanding = some Sample.slow ∧
      ∃ g budget, now.grants.get? Sample.node = some g ∧ now.rateBudgets.get? Sample.client = some budget ∧
        g.termID = budget.termID := by
  have hout : ((Sample.bound.afterRates Sample.digests Sample.rateRun).rateShares.get? Sample.node).map
      (fun share => (share.outstanding, share.budgetID)) = some (Sample.slow, Sample.client) := by decide +kernel
  obtain ⟨share, hshare, heq⟩ := map_eq_some_iff.mp hout
  obtain ⟨hslow, hbudget⟩ := Prod.mk.injEq .. ▸ heq
  refine ⟨Sample.termless_bound, ?_, ?_⟩
  · rw [hshare, map_some, hslow]
  · rw [← hbudget]
    refine ((single_term Sample.digests Sample.termless_bound Sample.rateRun).1 _ share hshare).1 ?_
    rw [hslow]
    decide

end Pui
