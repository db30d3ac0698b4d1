import Pui.Conservation
import Pui.SpoolRuns

/-!
# Delivery of usage

One node's queue, the control plane's ledger, and a network that may lose, duplicate, delay and reorder batches and
receipts.
-/

namespace Pui

open Guard Table Latest List

def FleetGrant.owner (g : FleetGrant) : String × String × String × String × String :=
  (g.nodeID, g.installationID, g.runtimeID, g.clientID, g.termID)

def Principal.owns (p : Principal) (g : FleetGrant) : Prop := g.nodeID = p.nodeID ∧ g.installationID = p.installationID

variable {p : Principal} {g : FleetGrant} {l l' : Ledger} {db db' : Fleet} {digests : Digests} {now : Int}
  {result : String × FleetGrant} {b : UsageBatch}

theorem Principal.owns_congr {g' : FleetGrant} (h : g'.owner = g.owner) :
    (p.owns g' ↔ p.owns g) ∧ g'.clientID = g.clientID ∧ g'.termID = g.termID := by
  simp only [FleetGrant.owner, Prod.mk.injEq] at h
  obtain ⟨hn, hi, -, hc, ht⟩ := h
  exact ⟨by rw [owns, owns, hn, hi], hc, ht⟩

def Ledger.KeepsOwners (l l' : Ledger) : Prop :=
  ∀ id g, l.grants.get? id = some g → ∃ g', l'.grants.get? id = some g' ∧ g'.owner = g.owner

theorem Ledger.KeepsOwners.refl (l : Ledger) : l.KeepsOwners l := fun _ g hg => ⟨g, hg, rfl⟩

theorem Ledger.keepsOwners_reserve {request : ReserveRequest} {placementID : String}
    (h : l.reserve request placementID = .ok (g, l')) : l.KeepsOwners l' ∧ l'.meters = l.meters := by
  simp only [Ledger.reserve, bind_eq_ok, pure_eq_ok, Prod.mk.injEq] at h
  obtain ⟨-, -, start, hstart, -, -, budgets, -, links, -, rfl, rfl⟩ := h
  refine ⟨fun id g hg => ?_, rfl⟩
  rw [get?_put]
  split
  · next hid =>
    rw [Ledger.reserveGrant, ← hid, hg] at hstart
    simp only [bind_eq_ok, pure_eq_ok] at hstart
    obtain ⟨-, -, -, -, -, -, rfl⟩ := hstart
    exact ⟨_, rfl, rfl⟩
  · exact ⟨g, hg, rfl⟩

theorem Ledger.owner_charge {c : UsageCheckpoint} {delta : Int}
    (h : Charges c l g delta l') (id : String) :
    (l'.grants.get? id).map FleetGrant.owner = (l.grants.get? id).map FleetGrant.owner := by
  rw [h.grants, get?_put]
  split
  · next hid =>
    rw [hid, h.grant]
    rfl
  · rfl

theorem Ledger.KeepsOwners.of_owner
    (h : ∀ id, (l'.grants.get? id).map FleetGrant.owner = (l.grants.get? id).map FleetGrant.owner) : l.KeepsOwners l' := by
  intro id g hg
  have hid := h id
  rw [hg, Option.map_some] at hid
  exact Option.map_eq_some_iff.mp hid

theorem Ledger.chargeAll_eq_ok {cs : List UsageCheckpoint} {deltas deltas' : TermDeltas}
    (hnd : (cs.map UsageCheckpoint.key).Nodup) (h : Ledger.chargeAll cs l deltas = .ok (l', deltas')) :
    (∀ id, (l'.grants.get? id).map FleetGrant.owner = (l.grants.get? id).map FleetGrant.owner) ∧
      (∀ c ∈ cs, ∃ g, l.grants.get? c.grantID = some g ∧ g.clientID = c.clientID ∧ g.termID = c.termID) ∧
      ∀ k, l'.meters.get? k = ((cs.find? fun c => c.key = k).map fun c => ⟨c.uploaded, c.downloaded⟩).or (l.meters.get? k) := by
  induction cs generalizing l deltas with
  | nil =>
    cases h
    exact ⟨fun _ => rfl, by simp, fun _ => rfl⟩
  | cons c cs ih =>
    simp only [Ledger.chargeAll, bind_eq_ok] at h
    obtain ⟨⟨mid, d⟩, hc, h⟩ := h
    obtain ⟨hnew, hnd⟩ := nodup_cons.mp hnd
    obtain ⟨g, delta, hcharge, -⟩ := charges_of_charge hc
    obtain ⟨howner, howned, hmeters⟩ := ih hnd h
    refine ⟨fun id => (howner id).trans (owner_charge hcharge id), ?_, fun k => ?_⟩
    · rw [forall_mem_cons]
      refine ⟨⟨g, hcharge.grant, hcharge.owner.1, hcharge.owner.2.1⟩, fun e he => ?_⟩
      obtain ⟨ge, hge, howner⟩ := howned e he
      rw [hcharge.grants, get?_put] at hge
      split at hge
      · next hid =>
        cases hge
        rw [hid]
        exact ⟨g, hcharge.grant, howner⟩
      · exact ⟨ge, hge, howner⟩
    · rw [hmeters, hcharge.meters, get?_put, List.find?_cons]
      by_cases hk : c.key = k
      · subst hk
        have hnone : (cs.find? fun d => d.key = c.key) = none :=
          List.find?_eq_none.mpr fun d hd he => hnew ((of_decide_eq_true he) ▸ mem_map_of_mem hd)
        simp [hnone]
      · have hk' : ¬k = c.key := fun he => hk he.symm
        simp [hk, hk']

/-- A transaction that has nothing to do with the usage of the principal's node. -/
structure Elsewhere (p : Principal) (db db' : Fleet) : Prop where
  cursor : db'.cursors.get? (p.nodeID, p.installationID) = db.cursors.get? (p.nodeID, p.installationID)
  owners : db.toLedger.KeepsOwners db'.toLedger
  meters : ∀ id m i, (∀ g, db.grants.get? id = some g → p.owns g) → db'.meters.get? (id, m, i) = db.meters.get? (id, m, i)

theorem Elsewhere.of_ledger (hc : db'.cursors = db.cursors)
    (ho : db.toLedger.KeepsOwners db'.toLedger) (hm : db'.meters = db.meters) : Elsewhere p db db' :=
  ⟨by rw [hc], ho, fun _ _ _ _ => by rw [hm]⟩

theorem elsewhere_reserve {request : ReserveRequest} {placementID : String}
    (h : Fleet.reserve digests request placementID now db = .ok (result, db')) :
    Elsewhere p db db' ∧ db'.cursors = db.cursors ∧ db'.meters = db.meters := by
  rcases Fleet.reserve_eq_ok h with ⟨-, -, -, rfl⟩ | ⟨ledger, operations, -, -, hreserve, -, rfl⟩
  · exact ⟨.of_ledger rfl (.refl _) rfl, rfl, rfl⟩
  · obtain ⟨ho, hm⟩ := Ledger.keepsOwners_reserve hreserve
    exact ⟨.of_ledger rfl ho hm, rfl, hm⟩

theorem elsewhere_reserveClientCredit {request : ClientCreditRequest} {ids : CreditIDs}
    (h : Fleet.reserveClientCredit digests request ids now db = .ok (result, db')) : Elsewhere p db db' := by
  rcases Fleet.reserveClientCredit_eq_ok h with
    ⟨-, rfl⟩ | ⟨-, _, _, _, _, _, _, _, _, -, -, -, rfl, -, hreserve, rfl⟩
  · exact .of_ledger rfl (.refl _) rfl
  · obtain ⟨he, hc, hm⟩ := elsewhere_reserve (p := p) hreserve
    exact .of_ledger hc he.owners hm

theorem elsewhere_transition {request : TransitionRequest} {termID : String} {result : TransitionResult} (h : Fleet.transition digests request termID now db = .ok (result, db')) :
    Elsewhere p db db' := by
  rcases Fleet.transition_eq_ok h with ⟨-, -, -, -, -, -, rfl⟩ | hran
  · exact .of_ledger rfl (.refl _) rfl
  · have hopens : db.Opens _ _ _ db' := hran.effect
    exact .of_ledger hopens.cursors (by rw [hopens.ledger]; exact .refl _) (by rw [hopens.ledger])

theorem Ledger.owns_of_lockUsage (h : l.lockUsage p b = .ok ()) :
    ∀ c ∈ b.checkpoints, ∃ g, l.grants.get? c.grantID = some g ∧ p.owns g := by
  simp only [lockUsage, unit_bind_eq_ok] at h
  obtain ⟨-, h⟩ := h
  intro c hc
  generalize hids : b.checkpoints.map (·.grantID) = ids at h
  have hmem : c.grantID ∈ ids := hids ▸ mem_map_of_mem hc
  clear hids
  induction ids with
  | nil => exact absurd hmem not_mem_nil
  | cons id ids ih =>
    simp only [forM_eq_forM, forM_cons, unit_bind_eq_ok] at h
    obtain ⟨hid, h⟩ := h
    rcases mem_cons.mp hmem with rfl | hmem
    · simp only [bind_eq_ok, found_eq_ok, refuse_eq_ok, not_or, not_not] at hid
      obtain ⟨g, hg, hn, hi, -⟩ := hid
      exact ⟨g, hg, hn, hi⟩
    · exact ih h hmem

theorem nodup_keys_of_validBatch (h : validBatch b = true) : (b.checkpoints.map UsageCheckpoint.key).Nodup := by
  simp only [validBatch, Bool.and_eq_true, decide_eq_true_eq] at h
  exact h.2

theorem sequence_le_of_validBatch (h : validBatch b = true) : (b.sequence : Int) ≤ maxInt64 := by
  simp only [validBatch, Bool.and_eq_true, decide_eq_true_eq] at h
  exact Int.ofNat_le.mpr h.1.1.1.1.1.2

theorem elsewhere_ingest {q : Principal} {peer : Peer}
    {receipt : UsageReceipt} (hpq : (q.nodeID, q.installationID) ≠ (p.nodeID, p.installationID))
    (h : Fleet.ingest digests peer q b now db = .ok (receipt, db')) : Elsewhere p db db' := by
  obtain ⟨hvalid, -, ⟨-, -, rfl⟩ | ⟨-, -, hlock, ledger, deltas, _, _, _, hcharge, -, rfl⟩⟩ := Fleet.ingest_eq_ok h
  · exact ⟨get?_put_of_ne hpq.symm _ _, .refl _, fun _ _ _ _ => rfl⟩
  · obtain ⟨hkeep, -, hmeters⟩ := Ledger.chargeAll_eq_ok (nodup_keys_of_validBatch hvalid) hcharge
    refine ⟨get?_put_of_ne hpq.symm _ _, .of_owner hkeep, fun id m i hown => ?_⟩
    have hnone : (b.checkpoints.find? fun c => c.key = (id, m, i)) = none := by
      refine List.find?_eq_none.mpr fun c hc he => ?_
      obtain ⟨g, hg, hq⟩ := Ledger.owns_of_lockUsage hlock c hc
      have hid : c.grantID = id := congrArg Prod.fst (of_decide_eq_true he)
      rw [hid] at hg
      obtain ⟨hn, hi⟩ := hown g hg
      exact hpq (Prod.ext (hq.1.symm.trans hn) (hq.2.symm.trans hi))
    rw [hmeters, hnone]
    rfl

def LedgerOp.Foreign (p : Principal) : LedgerOp → Prop
  | .ingest _ q _ _ => (q.nodeID, q.installationID) ≠ (p.nodeID, p.installationID)
  | _ => True

instance (p : Principal) (op : LedgerOp) : Decidable (op.Foreign p) := by
  cases op <;> unfold LedgerOp.Foreign <;> infer_instance

theorem elsewhere_step {op : LedgerOp} (hop : op.Foreign p) (db : Fleet) :
    Elsewhere p db (op.step digests db) := by
  unfold LedgerOp.step
  split
  · next db' h =>
    cases op with
    | reserve request placementID now =>
      obtain ⟨result, h⟩ := map_snd_eq_ok h
      exact (elsewhere_reserve h).1
    | reserveClientCredit request ids now =>
      obtain ⟨result, h⟩ := map_snd_eq_ok h
      exact elsewhere_reserveClientCredit h
    | transition request termID now =>
      obtain ⟨result, h⟩ := map_snd_eq_ok h
      exact elsewhere_transition h
    | ingest peer q b now =>
      obtain ⟨receipt, h⟩ := map_snd_eq_ok h
      exact elsewhere_ingest hop h
  · exact .of_ledger rfl (.refl _) rfl

def Ledger.charges : List UsageCheckpoint → Ledger → TermDeltas → List ((String × String × String) × Int)
  | [], _, _ => []
  | c :: cs, l, deltas =>
    match l.charge c deltas with
    | .error _ => []
    | .ok (l', deltas') =>
      (c.key, (l'.grants.get? c.grantID).elim 0 FleetGrant.consumedBytes -
        (l.grants.get? c.grantID).elim 0 FleetGrant.consumedBytes) :: charges cs l' deltas'

/-- The node's store and its sender, the network, and the control plane. -/
structure Delivery where
  node : UsageStore
  sending : List UsageBatch := []
  returned : List UsageBatch := []
  sent : List UsageBatch := []
  ordered : List UsageBatch := []
  receipts : List UsageReceipt := []
  master : Fleet
  charged : List ((String × String × String) × Int) := []

namespace Delivery

/-- `deliver` and `receive` take any message that is on the network. -/
inductive Action where
  | append (checkpoints : List UsageCheckpoint)
  | pending (limit : Nat)
  | send
  | resend (b : UsageBatch)
  | deliver (b : UsageBatch) (peer : Peer) (now : Int)
  | receive (r : UsageReceipt)
  | crash
  | other (op : LedgerOp)

def cursor (p : Principal) (db : Fleet) : FleetUsageCursor :=
  (db.cursors.get? (p.nodeID, p.installationID)).getD ⟨0, []⟩

def ingested (digests : Digests) (p : Principal) (s : Delivery) (b : UsageBatch) (peer : Peer) (now : Int) : Delivery :=
  match s.master.ingest digests peer p b now with
  | .error _ => s
  | .ok (r, db) => { s with
      master := db
      receipts := r :: s.receipts
      charged := if (b.sequence : Int) ≤ (cursor p s.master).sequence then s.charged
        else s.charged ++ Ledger.charges b.checkpoints s.master.toLedger ∅ }

def received (s : Delivery) (r : UsageReceipt) : Delivery :=
  match s.sending with
  | [] => s
  | b :: bs =>
    if r.durableSequence < b.sequence then { s with sending := [] }
    else match s.node.acknowledge r with
      | .error _ => { s with sending := [] }
      | .ok node => { s with node := node, sending := bs }

def step (digests : Digests) (p : Principal) (s : Delivery) : Action → Delivery
  | .append checkpoints =>
    match s.node.appendUsage checkpoints with
    | .error _ => s
    | .ok node => { s with node := node }
  | .pending limit =>
    match s.node.pendingUsage limit with
    | .error _ => s
    | .ok (bs, node) => { s with node := node, sending := bs, returned := bs ++ s.returned }
  | .send =>
    match s.sending with
    | [] => s
    | b :: _ => { s with sent := b :: s.sent, ordered := b :: s.ordered }
  | .resend b => if b ∈ s.returned then { s with sent := b :: s.sent } else s
  | .deliver b peer now => if b ∈ s.sent then s.ingested digests p b peer now else s
  | .receive r => if r ∈ s.receipts then s.received r else s
  | .crash => { s with sending := [] }
  | .other op => if op.Foreign p then { s with master := op.step digests s.master } else s

def start (p : Principal) (db : Fleet) : Delivery :=
  { node := { nodeID := p.nodeID, installationID := p.installationID }, master := db }

structure Unused (p : Principal) (db : Fleet) : Prop where
  sound : db.toLedger.Sound
  cursor : db.cursors.get? (p.nodeID, p.installationID) = none
  meters : ∀ id g, db.grants.get? id = some g → p.owns g → ∀ m i, db.meters.get? (id, m, i) = none

def reported (s : Delivery) (k : MeterKey) : FleetMeter :=
  ((s.node.meters.get? k).map fun c => ⟨c.uploaded, c.downloaded⟩).getD ⟨0, 0⟩

/-- The cumulative value that the control plane stored for a meter of the node. -/
def stored (p : Principal) (s : Delivery) (k : MeterKey) : FleetMeter :=
  match s.master.grants.get? k.grantID with
  | none => ⟨0, 0⟩
  | some g =>
    if g.nodeID = p.nodeID ∧ g.installationID = p.installationID ∧ g.clientID = k.clientID ∧ g.termID = k.termID then
      s.master.reading (k.grantID, k.meterID, k.meterIncarnation)
    else ⟨0, 0⟩

def chargedFor (s : Delivery) (k : String × String × String) : Int :=
  ((s.charged.filter fun e => e.1 = k).map Prod.snd).sum

def meterOf (r : Option (Nat × Nat)) : FleetMeter := (r.map fun r => ⟨r.1, r.2⟩).getD ⟨0, 0⟩

def batchAt (p : Principal) (history : Nat → List UsageCheckpoint) (n : Nat) : UsageBatch :=
  ⟨p.nodeID, p.installationID, n, history n⟩

structure Accounted (digests : Digests) (p : Principal) (db : Fleet) (charges : List ((String × String × String) × Int))
    (history : Nat → List UsageCheckpoint) (n : Nat) : Prop where
  sound : db.toLedger.Sound
  cursor : cursor p db = ⟨n, if n = 0 then [] else digests.batch (batchAt p history n)⟩
  owned : ∀ t ≤ n, 1 ≤ t → ∀ c ∈ history t, ∃ g, db.grants.get? c.grantID = some g ∧ p.owns g ∧
    g.clientID = c.clientID ∧ g.termID = c.termID
  stored : ∀ id g, db.grants.get? id = some g → p.owns g → ∀ m i,
    db.reading (id, m, i) = meterOf (latest (readings history) ⟨id, g.clientID, g.termID, m, i⟩ n)
  charged : ∀ id g, db.grants.get? id = some g → p.owns g → ∀ m i,
    ((charges.filter fun e => e.1 = (id, m, i)).map Prod.snd).sum =
      (db.reading (id, m, i)).uploaded + (db.reading (id, m, i)).downloaded
  grants : ∀ e ∈ charges, ∃ g, db.grants.get? e.1.1 = some g

structure Agrees (digests : Digests) (p : Principal) (s : Delivery) (history : Nat → List UsageCheckpoint) (n : Nat) : Prop where
  kept : s.node.Kept history
  nodeID : s.node.nodeID = p.nodeID
  installationID : s.node.installationID = p.installationID
  accounted : Accounted digests p s.master s.charged history n
  durable : s.node.durableUsage ≤ n
  exposed : n ≤ s.node.exposedUsage
  returned : ∀ b ∈ s.returned, b = batchAt p history b.sequence ∧ 1 ≤ b.sequence ∧ b.sequence ≤ s.node.exposedUsage
  sent : ∀ b ∈ s.sent, b ∈ s.returned
  ordered : ∀ b ∈ s.ordered, b ∈ s.returned ∧ b.sequence ≤ n + 1
  receipts : ∀ r ∈ s.receipts, r.durableSequence ≤ n
  sending : ∀ b ∈ s.sending, b ∈ s.returned
  next : ∃ a len, s.sending = (List.range' a len).map (batchAt p history) ∧ a ≤ s.node.durableUsage + 1

end Delivery

end Pui
