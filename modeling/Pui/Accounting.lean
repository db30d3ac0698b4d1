import Pui.Requests

/-!
# Issuing and settling credit

`reserve` issues credit to a grant, `ingest` settles a batch of readings, `reserveClientCredit` issues credit for a
client's term.
-/

namespace Pui

open Guard Table

def ReserveRequest.valid (request : ReserveRequest) : Bool :=
  validID request.operationID && validID request.grantID && validID request.nodeID && validID request.installationID &&
    validID request.clientID && validID request.termID && runtimeName request.runtimeID &&
    request.budgetIDs.length != 0 && request.budgetIDs.length ≤ 64 &&
    (if request.unlimited then request.bytes = 0 else 0 < request.bytes) &&
    request.budgetIDs.all validID && decide request.budgetIDs.Nodup

/-- A reservation for a managed client draws on the budget of its current term. -/
def Fleet.guardManagedReservation (db : Fleet) (request : ReserveRequest) (placementID : String) (now : Int) :
    Except FleetError Unit := do
  match ← db.managedAuthority request.clientID request.termID true with
  | none => return ()
  | some term => do
    refuse (term.budgetID ∉ request.budgetIDs ∨ (term.expiresUnixMilli ≠ 0 ∧ term.expiresUnixMilli ≤ now)) .scope
    refuse ((db.clients.get? request.clientID).any (·.owned) ∧ placementID = "") .scope

def Ledger.lockBudgets (l : Ledger) (ids : List String) : Except FleetError Unit :=
  refuse (ids = [] ∨ ¬ids.Nodup ∨ ∃ id ∈ ids, l.budgets.get? id = none) .scope

def Ledger.reserveGrant (l : Ledger) (request : ReserveRequest) (placementID : String) : Except FleetError FleetGrant :=
  match l.grants.get? request.grantID with
  | none =>
    return {
      placementID := if placementID = "" then none else some placementID
      nodeID := request.nodeID, installationID := request.installationID, runtimeID := request.runtimeID
      clientID := request.clientID, termID := request.termID, unlimited := request.unlimited
      issuedBytes := 0, consumedBytes := 0, revision := 1 }
  | some grant => do
    refuse (grant.nodeID ≠ request.nodeID ∨ grant.installationID ≠ request.installationID ∨
      grant.clientID ≠ request.clientID ∨ grant.termID ≠ request.termID ∨ grant.runtimeID ≠ request.runtimeID ∨
      grant.unlimited ≠ request.unlimited ∨ grant.revision = maxInt64) .scope
    refuse (placementID ≠ "" ∧ grant.placementID ≠ some placementID) .scope
    refuse (sortIDs (l.links.seconds request.grantID) ≠ request.budgetIDs) .scope
    return { grant with revision := grant.revision + 1 }

def FleetBudget.reserve (unlimited : Bool) (bytes : Int) (b : FleetBudget) : Except FleetError FleetBudget := do
  refuse (unlimited ∧ !b.unlimited) .budget
  if b.unlimited then return b
  else do
    refuse (b.usedBytes > b.limitBytes ∨ b.reservedBytes > b.limitBytes - b.usedBytes ∨
      bytes > b.limitBytes - b.usedBytes - b.reservedBytes) .budget
    return { b with reservedBytes := b.reservedBytes + bytes }

def Ledger.reserveLinks (l : Ledger) (request : ReserveRequest) : Except FleetError (Table (String × String) Unit) :=
  if (l.grants.get? request.grantID).isSome then .ok l.links
  else createEach .storage () (request.budgetIDs.map fun id => (request.grantID, id)) l.links

def Ledger.reserve (l : Ledger) (request : ReserveRequest) (placementID : String) : Except FleetError (FleetGrant × Ledger) := do
  l.lockBudgets request.budgetIDs
  let grant ← l.reserveGrant request placementID
  refuse (exceeds grant.issuedBytes request.bytes) .budget
  let budgets ← l.budgets.updateEach .scope (fun _ => FleetBudget.reserve request.unlimited request.bytes) request.budgetIDs
  let grant := { grant with issuedBytes := grant.issuedBytes + request.bytes }
  let links ← l.reserveLinks request
  return (grant, { l with budgets := budgets, grants := l.grants.put request.grantID grant, links := links })

def OperationResult.decodeGrant : OperationResult → Option (String × FleetGrant)
  | .grant id row => some (id, row)
  | _ => none

def Fleet.reserve (digests : Digests) (request : ReserveRequest) (placementID : String) (now : Int) (db : Fleet) :
    Except FleetError ((String × FleetGrant) × Fleet) := do
  refuse (!request.valid) .invalid
  let request := { request with budgetIDs := sortIDs request.budgetIDs }
  db.lockAuthority
  db.operation request.operationID (digests.reserve request) (fun g => .grant g.1 g.2) OperationResult.decodeGrant fun db => do
    db.lockNode request.nodeID request.installationID
    db.requireRuntimeJournal request.nodeID request.installationID request.runtimeID
    db.guardManagedReservation request placementID now
    let (grant, ledger) ← db.toLedger.reserve request placementID
    return ((request.grantID, grant), { db with toLedger := ledger })

structure TermUsageDelta where
  uploaded : Int
  downloaded : Int
  observed : Int
  deriving DecidableEq

abbrev TermDeltas := Table (String × String) TermUsageDelta

def usageFits (uploaded downloaded : Int) : Bool := !exceeds downloaded uploaded

def Fleet.addTermUsage (now : Int) (db : Fleet) (termID : String) (delta : TermUsageDelta) : Except FleetError Fleet := do
  let day := (now / 1000).tdiv 86400 * 86400
  let total := (db.termUsages.get? termID).getD ⟨0, 0, 0, 0⟩
  let history := (db.termUsageDays.get? (termID, day)).getD ⟨0, 0⟩
  let total : FleetTermUsage := ⟨total.uploaded + delta.uploaded, total.downloaded + delta.downloaded,
    max total.observedUnixMilli (min now delta.observed), max total.receivedUnixMilli now⟩
  let history : FleetTermUsageDay := ⟨history.uploaded + delta.uploaded, history.downloaded + delta.downloaded⟩
  refuse (!usageFits total.uploaded total.downloaded) .storage
  refuse (day < 0 ∨ !usageFits history.uploaded history.downloaded) .storage
  return { db with
    termUsages := db.termUsages.put termID total
    termUsageDays := db.termUsageDays.put (termID, day) history }

def Fleet.recordTermUsage (now : Int) (deltas : TermDeltas) (db : Fleet) : Except FleetError Fleet := do
  refuse (deltas.entries.any fun a => deltas.entries.any fun b => a.1.2 = b.1.2 && a.1.1 != b.1.1) .scope
  refuse (deltas.entries.any fun a => (db.terms.get? a.1.2).any fun term => term.clientID != a.1.1) .scope
  deltas.entries.foldlM (fun db a => if (db.terms.get? a.1.2).isSome then db.addTermUsage now a.1.2 a.2 else .ok db) db

def validBatch (b : UsageBatch) : Bool :=
  validID b.nodeID && validID b.installationID && b.sequence != 0 && b.sequence ≤ maxInt64 &&
    b.checkpoints.length != 0 && b.checkpoints.length ≤ 4096 && b.size ≤ 2 ^ 20 &&
    (b.checkpoints.all fun c =>
      validID c.grantID && validID c.clientID && validID c.termID && validID c.meterIncarnation && c.meterID != "" &&
        c.meterID.utf8ByteSize ≤ 128 && 0 < c.observedUnixMilli && c.uploaded ≤ maxInt64 && c.downloaded ≤ maxInt64) &&
    decide (b.checkpoints.map UsageCheckpoint.key).Nodup

def FleetBudget.charge (delta : Int) (b : FleetBudget) : Except FleetError FleetBudget := do
  refuse (exceeds b.usedBytes delta ∨ (!b.unlimited ∧ delta > b.reservedBytes)) .budget
  return { b with
    usedBytes := b.usedBytes + delta
    reservedBytes := if b.unlimited then b.reservedBytes else b.reservedBytes - delta }

def TermDeltas.add (deltas : TermDeltas) (key : String × String) (up down observed : Int) : Except FleetError TermDeltas :=
  if up + down > 0 then do
    let total := (deltas.get? key).getD ⟨0, 0, 0⟩
    refuse (exceeds total.uploaded up ∨ exceeds total.downloaded down) .budget
    return deltas.put key ⟨total.uploaded + up, total.downloaded + down, max total.observed observed⟩
  else return deltas

def Ledger.reading (l : Ledger) (k : String × String × String) : FleetMeter := (l.meters.get? k).getD ⟨0, 0⟩

def Ledger.charge (c : UsageCheckpoint) (l : Ledger) (deltas : TermDeltas) : Except FleetError (Ledger × TermDeltas) := do
  let g ← found (l.grants.get? c.grantID) .scope
  refuse (g.clientID ≠ c.clientID ∨ g.termID ≠ c.termID ∨ g.runtimeID ≠ c.meterID) .scope
  let meter := l.reading c.key
  refuse ((c.uploaded : Int) < meter.uploaded ∨ (c.downloaded : Int) < meter.downloaded) .invalid
  let dUp : Int := c.uploaded - meter.uploaded
  let dDown : Int := c.downloaded - meter.downloaded
  refuse (exceeds dUp dDown) .budget
  let delta := dUp + dDown
  let deltas ← deltas.add (g.clientID, g.termID) dUp dDown c.observedUnixMilli
  refuse (exceeds g.consumedBytes delta ∨ (!g.unlimited ∧ delta > g.issuedBytes - g.consumedBytes)) .budget
  let budgets ← l.budgets.updateEach .scope (fun _ => FleetBudget.charge delta) (l.links.seconds c.grantID)
  return ({ l with
    budgets := budgets
    grants := l.grants.put c.grantID { g with consumedBytes := g.consumedBytes + delta }
    meters := l.meters.put c.key ⟨c.uploaded, c.downloaded⟩ }, deltas)

def Ledger.chargeAll : List UsageCheckpoint → Ledger → TermDeltas → Except FleetError (Ledger × TermDeltas)
  | [], l, deltas => .ok (l, deltas)
  | c :: cs, l, deltas => do
    let (l, deltas) ← l.charge c deltas
    chargeAll cs l deltas

/-- The grants of a batch belong to its node and draw on budgets that exist. -/
def Ledger.lockUsage (l : Ledger) (p : Principal) (b : UsageBatch) : Except FleetError Unit := do
  let grantIDs := b.checkpoints.map (·.grantID)
  l.lockBudgets (grantIDs.flatMap l.links.seconds).dedup
  grantIDs.forM fun id => do
    let g ← found (l.grants.get? id) .scope
    refuse (g.nodeID ≠ p.nodeID ∨ g.installationID ≠ p.installationID ∨ l.links.seconds id = []) .scope

def Fleet.account (p : Principal) (b : UsageBatch) (digest : Digest) (now : Int) (db : Fleet) : Except FleetError Fleet := do
  db.toLedger.lockUsage p b
  let (ledger, deltas) ← db.toLedger.chargeAll b.checkpoints ∅
  let db ← Fleet.recordTermUsage now deltas { db with toLedger := ledger }
  return { db with cursors := db.cursors.put (p.nodeID, p.installationID) ⟨b.sequence, digest⟩ }

def Fleet.ingest (digests : Digests) (peer : Peer) (p : Principal) (b : UsageBatch) (now : Int) (db : Fleet) :
    Except FleetError (UsageReceipt × Fleet) := do
  refuse (!validBatch b) .invalid
  refuse (!p.require b.nodeID b.installationID) .scope
  db.lockAuthority
  db.lockAuthenticatedNode peer p
  let cursor := (db.cursors.get? (p.nodeID, p.installationID)).getD ⟨0, []⟩
  let db := { db with cursors := db.cursors.put (p.nodeID, p.installationID) cursor }
  if (b.sequence : Int) ≤ cursor.sequence then do
    refuse ((b.sequence : Int) = cursor.sequence ∧ cursor.digest ≠ digests.batch b) .conflict
    return (⟨cursor.sequence.toNat, cursor.sequence.toNat⟩, db)
  else do
    refuse (cursor.sequence = maxInt64 ∨ (b.sequence : Int) ≠ cursor.sequence + 1) .sequence
    let db ← db.account p b (digests.batch b) now
    return (⟨b.sequence, b.sequence⟩, db)

def ClientCreditRequest.valid (request : ClientCreditRequest) : Bool :=
  validID request.operationID && validID request.placementID && validID request.termID &&
    request.expectedPlacementRevision != 0 && request.expectedPlacementRevision ≤ maxInt64 &&
    request.expectedRevision != 0 && request.expectedRevision ≤ maxInt64 &&
    request.expectedCredentialGeneration != 0 && request.expectedCredentialGeneration ≤ maxInt64 &&
    request.sourcePolicyDigest.length == 32 && 0 < request.bytes && 0 ≤ request.authorityCeiling &&
    request.parentBudgetIDs.length ≤ 63 && request.parentBudgetIDs.all validID && decide request.parentBudgetIDs.Nodup &&
    request.parentLimitBytes.entries.length == request.parentBudgetIDs.length &&
    request.parentBudgetIDs.all fun id => (request.parentLimitBytes.get? id).any (0 ≤ ·)

def FleetBudget.moveLimit (limit : Int) (b : FleetBudget) : Except FleetError FleetBudget := do
  refuse (b.unlimited ∨ b.usedBytes > limit ∨ b.reservedBytes > limit - b.usedBytes) .budget
  return { b with limitBytes := limit }

def Ledger.partialAmount (l : Ledger) : List String → Int → Except FleetError Int
  | [], amount => .ok amount
  | id :: ids, amount => do
    let b ← found (l.budgets.get? id) .scope
    if b.unlimited then partialAmount l ids amount
    else do
      refuse (b.usedBytes > b.limitBytes ∨ b.reservedBytes > b.limitBytes - b.usedBytes) .budget
      partialAmount l ids (min amount (b.limitBytes - b.usedBytes - b.reservedBytes))

def Ledger.termGrants (l : Ledger) (clientID termID : String) : Table String FleetGrant :=
  l.grants.keep fun _ g => g.clientID = clientID && g.termID = termID

def Ledger.ceilingUsage (l : Ledger) (own : FleetBudget) (clientID termID : String) : Except FleetError (Int × Int) :=
  if !own.unlimited then return (own.usedBytes, own.reservedBytes)
  else do
    let grants := l.termGrants clientID termID
    let issued := grants.total fun _ g => g.issuedBytes
    let consumed := grants.total fun _ g => g.consumedBytes
    refuse (issued > maxInt64 ∨ consumed > maxInt64) .storage
    refuse ((grants.entries.any fun e => e.2.unlimited) ∨ consumed > own.usedBytes ∨ consumed > issued) .budget
    return (own.usedBytes - consumed, issued)

def Ledger.budgetAmount (l : Ledger) (request : ClientCreditRequest) (term : FleetTerm) : Except FleetError Int :=
  if request.allowPartial then l.partialAmount (term.budgetID :: request.parentBudgetIDs) request.bytes
  else .ok request.bytes

def Ledger.ceilingAmount (l : Ledger) (request : ClientCreditRequest) (own : FleetBudget) (clientID : String) (amount : Int) :
    Except FleetError Int :=
  if request.authorityCeiling = 0 then .ok amount
  else do
    let (used, reserved) ← l.ceilingUsage own clientID request.termID
    refuse (used > request.authorityCeiling ∨ reserved > request.authorityCeiling - used) .budget
    let remaining := request.authorityCeiling - used - reserved
    refuse (!request.allowPartial ∧ amount > remaining) .budget
    return if request.allowPartial then min amount remaining else amount

def Ledger.creditAmount (l : Ledger) (request : ClientCreditRequest) (clientID : String) (term : FleetTerm) :
    Except FleetError Int := do
  let own ← found (l.budgets.get? term.budgetID) .scope
  let amount ← l.budgetAmount request term
  let amount ← l.ceilingAmount request own clientID amount
  refuse (amount ≤ 0) .budget
  return amount

def Fleet.creditScope (db : Fleet) (request : ClientCreditRequest) : Except FleetError (FleetPlacement × FleetTerm) := do
  let placement ← found (db.placements.get? request.placementID) .notFound
  db.lockNode placement.nodeID placement.installationID
  db.requireRuntimeJournal placement.nodeID placement.installationID placement.runtimeID
  let client ← db.lockClient placement.clientID
  refuse (!client.owned ∨ client.revision ≠ request.expectedRevision ∨
    client.credentialGeneration ≠ request.expectedCredentialGeneration ∨ client.currentTermID ≠ some request.termID) .revision
  refuse (!placement.enabled ∨ placement.graphDigest.length ≠ 32 ∨ placement.revision ≠ request.expectedPlacementRevision ∨
    placement.credentialGeneration ≠ client.credentialGeneration ∨
    placement.sourcePolicyDigest ≠ request.sourcePolicyDigest) .scope
  let references := db.placementInbounds.keep fun k _ => k.1 = request.placementID
  refuse (references.entries = [] ∨ references.entries.any fun e => e.2.isNone) .scope
  let term ← db.managedAuthority placement.clientID request.termID true
  let term ← found term .scope
  return (placement, term)

structure CreditIDs where
  grantID : String
  ledgerOperation : String

def Fleet.reserveClientCredit (digests : Digests) (request : ClientCreditRequest) (ids : CreditIDs) (now : Int)
    (db : Fleet) : Except FleetError ((String × FleetGrant) × Fleet) := do
  refuse (!request.valid) .invalid
  let request := { request with parentBudgetIDs := sortIDs request.parentBudgetIDs }
  db.lockAuthority
  let (placement, term) ← db.creditScope request
  db.operation request.operationID (digests.clientCredit request) (fun g => .grant g.1 g.2) OperationResult.decodeGrant fun db => do
    db.toLedger.lockBudgets (term.budgetID :: request.parentBudgetIDs)
    let budgets ← db.budgets.updateEach .scope
      (fun id b => b.moveLimit ((request.parentLimitBytes.get? id).getD 0)) request.parentBudgetIDs
    let db := { db with budgets := budgets }
    let amount ← db.toLedger.creditAmount request placement.clientID term
    let grantID := if placement.currentGrantTermID = some request.termID then placement.currentGrantID.getD ids.grantID
      else ids.grantID
    let (grant, db) ← Fleet.reserve digests {
      operationID := ids.ledgerOperation, grantID := grantID, nodeID := placement.nodeID
      installationID := placement.installationID, runtimeID := placement.runtimeID, clientID := placement.clientID
      termID := request.termID, budgetIDs := term.budgetID :: request.parentBudgetIDs, bytes := amount
      unlimited := false } request.placementID now db
    let placement := { placement with currentGrantID := some grant.1, currentGrantTermID := some request.termID }
    return (grant, { db with placements := db.placements.put request.placementID placement })

end Pui
