import Pui.Observation
import Pui.Spool

/-!
# Reports of authority

A node numbers its reports, and keeps a report until a receipt for it comes in (`AuthorityStore`).
-/

namespace Pui

open Guard

structure RuntimeJournalIdentity where
  runtimeID : String
  coreID : String
  stateJournalID : String
  creditJournalID : String
  deriving DecidableEq

def RuntimeJournalIdentity.valid (j : RuntimeJournalIdentity) : Bool :=
  runtimeName j.runtimeID && runtimeName j.coreID && validID j.stateJournalID && validID j.creditJournalID &&
    j.stateJournalID != j.creditJournalID

structure AuthorityReport where
  nodeID : String
  installationID : String
  agentStateJournalID : String
  runtimeID : String
  stateJournalID : String
  creditJournalID : String
  sequence : Nat
  observedUnixMilli : Int
  runtimeReady : Bool
  grants : List GrantAuthority
  deriving DecidableEq

structure AuthorityReceipt where
  runtimeID : String
  stateJournalID : String
  creditJournalID : String
  sequence : Nat
  deriving DecidableEq

namespace AuthorityReport

def validate (r : AuthorityReport) (agent : Bool) : Except NodeError Unit := do
  refuse (!validID r.nodeID ∨ !validID r.installationID ∨ (agent ∧ !validID r.agentStateJournalID) ∨
    !runtimeName r.runtimeID ∨ !validID r.stateJournalID ∨ !validID r.creditJournalID ∨ r.sequence = 0 ∨
    r.sequence > maxInt64 ∨ r.observedUnixMilli ≤ 0 ∨ r.grants.length > maxEntries) .report
  refuse (¬(r.grants.all fun g => g.validate.isOk) ∨ ¬(r.grants.map GrantAuthority.grantID).Nodup) .report

def receipt (r : AuthorityReport) : AuthorityReceipt := ⟨r.runtimeID, r.stateJournalID, r.creditJournalID, r.sequence⟩

def withAgent (r : AuthorityReport) (journalID : String) : AuthorityReport := { r with agentStateJournalID := journalID }

def entry (r : AuthorityReport) (id : String) : Option GrantAuthority := r.grants.find? fun g => g.grantID = id

end AuthorityReport

structure AuthorityStore where
  nodeID : String
  installationID : String
  journalID : String
  runtimeJournals : Table String String
  cursor : String := ""
  sequence : Nat := 0
  pending : Option AuthorityReport := none
  seen : Table String GrantAuthority := ∅
  acked : Nat := 0
  reportedAt : Int := 0
  ready : Bool := false

namespace AuthorityStore

def decodeAuthority (size : AuthorityReport → Nat) (pending : Option AuthorityReport) :
    Except NodeError (Option AuthorityReport) :=
  match pending with
  | none => .ok none
  | some r => do
    refuse (size r > maxBatchBytes ∨ r.validate false ≠ .ok ()) .report
    return some r

def validPage (grants : List GrantAuthority) : Bool :=
  grants.all (fun g => g.validate.isOk) && decide ((grants.map GrantAuthority.grantID).Pairwise (· < ·))

def capture (size : AuthorityReport → Nat) (journal : RuntimeJournalIdentity) (page : Page) (ready : Bool) (now : Int)
    (s : AuthorityStore) : Except NodeError (Option AuthorityReport × AuthorityStore) := do
  refuse (now ≤ 0 ∨ !journal.valid ∨ journal.stateJournalID ≠ s.journalID ∨ page.grants.length > maxEntries ∨
    (page.next ≠ "" ∧ !validID page.next)) .report
  refuse (¬validPage page.grants) .report
  match ← decodeAuthority size s.pending with
  | some pending => return (some pending, s)
  | none => do
    let changed := page.grants.filter fun g => s.seen.get? g.grantID ≠ some g
    let s := { s with cursor := page.next }
    if changed = [] ∧ ready = s.ready ∧ 0 < s.reportedAt ∧ s.reportedAt ≤ now ∧ now - s.reportedAt < 10000 then
      return (none, s)
    else do
      refuse (s.sequence ≥ maxInt64) .report
      let report : AuthorityReport :=
        ⟨s.nodeID, s.installationID, "", journal.runtimeID, s.journalID, journal.creditJournalID, s.sequence + 1, now,
          ready, changed⟩
      report.validate false
      refuse (size report > maxBatchBytes) .spoolFull
      return (some report, { s with sequence := s.sequence + 1, pending := some report })

def acknowledge (size : AuthorityReport → Nat) (receipt : AuthorityReceipt) (s : AuthorityStore) :
    Except NodeError AuthorityStore := do
  refuse (receipt.sequence = 0 ∨ receipt.sequence > maxInt64 ∨ receipt.stateJournalID ≠ s.journalID) .report
  refuse ((s.runtimeJournals.get? receipt.runtimeID).getD "" ≠ receipt.creditJournalID) .identity
  if receipt.sequence ≤ s.acked then return s
  else do
    let pending ← decodeAuthority size s.pending
    let pending ← found pending .report
    refuse (pending.sequence ≠ receipt.sequence ∨ pending.runtimeID ≠ receipt.runtimeID ∨
      pending.creditJournalID ≠ receipt.creditJournalID) .report
    return { s with
      seen := pending.grants.foldl (fun seen g => seen.put g.grantID g) s.seen
      acked := receipt.sequence, reportedAt := pending.observedUnixMilli, ready := pending.runtimeReady, pending := none }

end AuthorityStore

structure ReportCursor where
  sequence : Int := 0
  digest : Digest := []
  observedUnixMilli : Int := 0
  deriving DecidableEq

structure ReportMaster where
  fleet : Fleet
  cursors : Table (String × String) ReportCursor
  observed : Table String FleetGrantAuthority

def Fleet.reportedGrant (db : Fleet) (p : Principal) (runtimeID id : String) : Option FleetGrant :=
  (db.toLedger.grants.get? id).filter fun g =>
    g.nodeID = p.nodeID && g.installationID = p.installationID && g.runtimeID = runtimeID

def Fleet.checkScope (grant : FleetGrant) (o : GrantAuthority) : Except FleetError Unit :=
  refuse (grant.clientID ≠ o.clientID ∨ grant.termID ≠ o.termID ∨ grant.unlimited ≠ o.quotaUnlimited) .scope

def Fleet.rateAhead (db : Fleet) (p : Principal) (runtimeID : String) (grant : FleetGrant) (o : GrantAuthority) :
    Except FleetError Bool :=
  if o.authorityRevision = 0 then .ok false
  else do
    let share ← found ((db.rateShares.get? o.grantID).filter fun s =>
      s.nodeID = p.nodeID && s.installationID = p.installationID && s.runtimeID = runtimeID) .scope
    refuse (((db.rateBudgets.get? share.budgetID).map (·.clientID)).getD "" ≠ grant.clientID) .scope
    return decide ((o.authorityRevision : Int) > share.revision)

def creditAhead (grant : FleetGrant) (o : GrantAuthority) : Bool := (o.creditCeiling : Int) > grant.issuedBytes

def beyond (node : FleetNode) (grant : FleetGrant) (o : GrantAuthority) : Bool :=
  (!grant.unlimited && (o.reservedHighWater : Int) > grant.issuedBytes) ||
    (o.policyRevision : Int) > max node.appliedRevision node.sentRevision

namespace ReportMaster

def previous (m : ReportMaster) (id : String) : FleetGrantAuthority := (m.observed.get? id).getD {}

def last (m : ReportMaster) (nodeID runtimeID : String) : ReportCursor := (m.cursors.get? (nodeID, runtimeID)).getD {}

structure Checked where
  ahead : Bool
  rate : Bool

def checkGrant (m : ReportMaster) (p : Principal) (runtimeID : String) (node : FleetNode) (o : GrantAuthority) :
    Except FleetError Checked := do
  let grant ← found (m.fleet.reportedGrant p runtimeID o.grantID) .scope
  Fleet.checkScope grant o
  let rate ← m.fleet.rateAhead p runtimeID grant o
  refuse (o.regresses (m.previous o.grantID)) .conflict
  refuse (!creditAhead grant o ∧ !rate ∧ beyond node grant o) .scope
  return ⟨creditAhead grant o || rate, rate⟩

def store (m : ReportMaster) (hash : AuthorityReport → Digest) (p : Principal) (r : AuthorityReport)
    (journal : FleetRuntimeJournal) (now : Int) : ReportMaster where
  fleet :=
    let journal := { journal with ready := r.runtimeReady, receivedUnixMilli := now }
    { m.fleet with runtimeJournals := m.fleet.runtimeJournals.put (p.nodeID, r.runtimeID) journal }
  cursors := m.cursors.put (p.nodeID, r.runtimeID) ⟨r.sequence, hash r, r.observedUnixMilli⟩
  observed := r.grants.foldl (fun stored o => stored.put o.grantID
    (o.stored (m.previous o.grantID) p.nodeID r.runtimeID r.sequence now)) m.observed

inductive Ingested where
  | stored (m : ReportMaster)
  | held (m : ReportMaster)
  | witness (rate : Bool)

def ingestBound (m : ReportMaster) (hash : AuthorityReport → Digest) (p : Principal) (r : AuthorityReport)
    (journal : FleetRuntimeJournal) (now : Int) : Except FleetError Ingested :=
  if (r.sequence : Int) = (m.last p.nodeID r.runtimeID).sequence then do
    refuse ((m.last p.nodeID r.runtimeID).digest ≠ hash r) .conflict
    return .stored m
  else do
    let node ← found (m.fleet.nodes.get? p.nodeID) .notFound
    refuse (∃ o ∈ r.grants, m.fleet.reportedGrant p r.runtimeID o.grantID = none) .scope
    let checked ← r.grants.mapM (m.checkGrant p r.runtimeID node)
    if checked.any (·.ahead) then return .witness (checked.any (·.rate))
    else do
      refuse ((r.sequence : Int) ≠ (m.last p.nodeID r.runtimeID).sequence + 1) .sequence
      return .stored (m.store hash p r journal now)

def ingestTx (m : ReportMaster) (hash : AuthorityReport → Digest) (peer : Peer) (p : Principal) (r : AuthorityReport)
    (now : Int) : Except FleetError Ingested := do
  m.fleet.lockAuthority
  m.fleet.lockAuthenticatedNode peer p
  match m.fleet.requireNodeJournal p.nodeID p.installationID r.agentStateJournalID with
  | .error .recovery => return .held { m with fleet := m.fleet.holdNodeJournal p }
  | .error e => .error e
  | .ok () => do
    let journal ← found (m.fleet.runtimeJournals.get? (p.nodeID, r.runtimeID)) .scope
    if journal.installationID ≠ p.installationID ∨ journal.stateJournalID ≠ r.stateJournalID ∨
        journal.creditJournalID ≠ r.creditJournalID then
      return .held { m with fleet := m.fleet.holdNodeJournal p }
    else m.ingestBound hash p r journal now

/-- The checks of one observation when the fleet is about to be closed. -/
def checkWitness (m : ReportMaster) (p : Principal) (runtimeID : String) (node : FleetNode) (rate : Bool)
    (o : GrantAuthority) : Except FleetError (Bool × Bool) := do
  let grant ← found (m.fleet.reportedGrant p runtimeID o.grantID) .scope
  Fleet.checkScope grant o
  let rowRate ← m.fleet.rateAhead p runtimeID grant o
  refuse (!rate ∧ o.regresses (m.previous o.grantID)) .conflict
  refuse (!rate ∧ !creditAhead grant o ∧ !rowRate ∧ beyond node grant o) .scope
  return (creditAhead grant o, rowRate)

def rollbackTx (m : ReportMaster) (peer : Peer) (p : Principal) (r : AuthorityReport) (rate : Bool) :
    Except FleetError (Bool × ReportMaster) := do
  refuse (r.validate true ≠ .ok () ∨ !p.require r.nodeID r.installationID) .scope
  m.fleet.lockAuthority
  m.fleet.lockAuthenticatedNode peer p
  m.fleet.requireNodeJournal p.nodeID p.installationID r.agentStateJournalID
  let journal ← found (m.fleet.runtimeJournals.get? (p.nodeID, r.runtimeID)) .notFound
  refuse (journal.stateJournalID ≠ r.stateJournalID ∨ journal.creditJournalID ≠ r.creditJournalID ∨
    journal.installationID ≠ p.installationID) .scope
  let node ← found (m.fleet.nodes.get? p.nodeID) .notFound
  refuse (∃ o ∈ r.grants, m.fleet.reportedGrant p r.runtimeID o.grantID = none) .scope
  let checked ← r.grants.mapM (m.checkWitness p r.runtimeID node rate)
  if checked.any (·.1) ∨ rate ∨ checked.any (·.2) then
    return (true, { m with fleet := { m.fleet with fence := m.fleet.fence.map fun _ => ⟨true⟩ } })
  else return (false, m)

def holdAuthorityRollback (m : ReportMaster) (peer : Peer) (p : Principal) (r : AuthorityReport) (rate : Bool) :
    FleetError × ReportMaster :=
  match m.rollbackTx peer p r rate with
  | .error e => (e, m)
  | .ok (true, m') => (.recovery, m')
  | .ok (false, m') => (.scope, m')

def ingestAuthority (m : ReportMaster) (hash : AuthorityReport → Digest) (size : AuthorityReport → Nat) (peer : Peer)
    (p : Principal) (r : AuthorityReport) (now : Int) : Except FleetError AuthorityReceipt × ReportMaster :=
  if r.validate true ≠ .ok () then (.error .invalid, m)
  else if !p.require r.nodeID r.installationID then (.error .scope, m)
  else if size r > 2 ^ 20 then (.error .invalid, m)
  else
    match m.ingestTx hash peer p r now with
    | .error e => (.error e, m)
    | .ok (.witness rate) =>
      let (e, m') := m.holdAuthorityRollback peer p r rate
      (.error e, m')
    | .ok (.held m') => (.error .recovery, m')
    | .ok (.stored m') => (.ok r.receipt, m')

end ReportMaster

end Pui
